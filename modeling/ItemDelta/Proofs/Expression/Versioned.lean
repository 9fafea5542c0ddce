import ItemDelta.Proofs.Alias.Prefix
import ItemDelta.Proofs.Expression.Guard

/-!
# Versioned expressions

An expression for a change that is guarded by a version updates just what the plain expression for
the change updates, in the same words. The condition comes after, and its placeholders take none
of those that the update has.

## Main definitions

* `Builder.Unleads` — a builder under the empty prefix beside one without a prefix.
* `VersionCheck.Demands` — what a check demands of the stored item.
* `Expression.Includes` — an expression with the update of another one.

## Main results

* `parallel_addPartition` — both builders write down the same.
* `exists_includes_of_versionedExpression` — a versioned expression demands what it should, and
  includes the plain one.
-/

namespace ItemDelta

/-! ### Builders under the empty prefix -/

namespace Builder

/-- A builder under the empty prefix beside one without a prefix, in a context without one. -/
structure Unleads (b c : Builder) : Prop where
  lead : b.lead = .text ""
  frame : c = { b with lead := .null, aliasing := b.aliasing.unled }

theorem parallel_registering {α : Type} {action other : Aliasing α}
    (h : Parallel (fun s t => t = AliasState.unled s) action other) :
    Parallel Unleads (registering action) (registering other) := by
  rintro b _ ⟨hlead, rfl⟩
  have houtcome := h b.aliasing b.aliasing.unled rfl
  rw [registering, registering]
  generalize action b.aliasing = first, other b.aliasing.unled = second at houtcome
  cases houtcome with
  | ok result hrelated => exact .ok result ⟨hlead, by rw [hrelated]⟩
  | error fault hrelated => exact .error fault ⟨hlead, by rw [hrelated]⟩

theorem parallel_aliased (node : Node) :
    Parallel Unleads (aliased node .null) (aliased node .null) := by
  refine .get fun b c h => ?_
  obtain ⟨hlead, rfl⟩ := h
  rw [hlead]
  refine Parallel.bind (parallel_registering (parallel_aliasNode node)) (fun texts => .pure _) b _
    ⟨hlead, rfl⟩

theorem parallel_aliasedPath (path : String) :
    Parallel Unleads (aliasedPath path .null) (aliasedPath path .null) := by
  refine .get fun b c h => ?_
  obtain ⟨hlead, rfl⟩ := h
  rw [hlead]
  exact parallel_registering (parallel_aliasPath path) b _ ⟨hlead, rfl⟩

/-- Builders that write down the same stay beside each other. -/
theorem parallel_modify {change : Builder → Builder} (hlead : ∀ b, (change b).lead = b.lead)
    (hframe : ∀ b, change { b with lead := .null, aliasing := b.aliasing.unled } =
      { change b with lead := .null, aliasing := (change b).aliasing.unled }) :
    Parallel Unleads (modify change) (modify change) := by
  refine .modifyGet ?_
  rintro b _ ⟨hb, rfl⟩
  exact ⟨rfl, (hlead b).trans hb, hframe b⟩

theorem parallel_set (nodes : List Node) : Parallel Unleads (set nodes) (set nodes) := by
  refine .bind (.mapM parallel_aliased nodes) fun items => ?_
  exact parallel_modify (fun _ => rfl) (fun _ => rfl)

theorem parallel_remove (nodes : List Node) : Parallel Unleads (remove nodes) (remove nodes) := by
  have hpath : ∀ node : Node, Parallel Unleads (aliasedPath node.path .null)
      (aliasedPath node.path .null) := fun node => parallel_aliasedPath node.path
  refine .bind (.mapM hpath nodes) fun items => ?_
  exact parallel_modify (fun _ => rfl) (fun _ => rfl)

theorem parallel_delete (nodes : List Node) : Parallel Unleads (delete nodes) (delete nodes) := by
  refine .bind (.mapM parallel_aliased nodes) fun items => ?_
  exact parallel_modify (fun _ => rfl) (fun _ => rfl)

theorem parallel_addPartition (nodes : Partition) :
    Parallel Unleads (addPartition nodes) (addPartition nodes) :=
  .bind (parallel_set nodes.set) fun _ => .bind (parallel_remove nodes.remove) fun _ =>
    parallel_delete nodes.delete

end Builder

/-! ### The plain expression -/

/-- An expression with the update of another one, and with all entries of its registries. -/
structure Expression.Includes (expression plain : Expression) : Prop where
  update : expression.update = plain.update
  names : ∀ placeholder name, plain.names.get? placeholder = some name →
    expression.names.get? placeholder = some name
  values : ∀ placeholder value, plain.values.get? placeholder = some value →
    expression.values.get? placeholder = some value

section Plain

variable {base modified : Value} {orphans : Bool} {nodes : Partition} {context : AliasContext}
  {b : Builder}

theorem orEmpty_orEmpty (v : Value) : orEmpty (orEmpty v) = orEmpty v := by cases v <;> rfl

theorem partition_orEmpty (base modified : Value) (orphans supportSets : Bool) :
    partition (orEmpty base) (orEmpty modified) orphans supportSets =
      partition base modified orphans supportSets := by
  rw [partition, partition, diff, diff, orEmpty_orEmpty, orEmpty_orEmpty]

/-- What a builder under the empty prefix collects, the plain expression says in a context without
    prefix. -/
theorem updateExpression_eq_ok (hnodes : partition base modified orphans false = .ok nodes)
    (hrun : Builder.addPartition nodes (.start context (.text "")) = .ok () b) :
    updateExpression base modified orphans false context.unled =
      .ok b.finish b.aliasing.context.unled := by
  obtain ⟨c, hplain, hbc⟩ := (Builder.parallel_addPartition nodes).exists_ok
    (t := .start context.unled .null) ⟨rfl, rfl⟩ hrun
  obtain ⟨-, rfl⟩ := hbc
  rw [updateExpression_eq_build hnodes, build, hplain]
  rfl

theorem leads_require (path : String) (expected : Option Value) (operator : String)
    (lead : Value) (hsound : b.aliasing.context.IsSound) :
    Leads Builder.Extends (Builder.require path expected operator lead) b
      fun _ c => c.clauses = b.clauses := by
  cases expected with
  | none =>
    refine (Builder.leads_modify
      (fun text builder => { builder with condition := some (.absent text) }) (fun _ _ => rfl)
      (Builder.leads_aliasedPath lead path hsound)).1.mono ?_
    rintro _ _ - ⟨text, c, hregisters, -, rfl⟩
    rw [hregisters.frame]
  | some value =>
    refine (Builder.leads_modify (fun item builder =>
      { builder with condition := some (.compares item.path operator item.value) })
      (fun _ _ => rfl) (Builder.leads_aliased lead ⟨path, value⟩ hsound)).1.mono ?_
    rintro _ _ - ⟨item, c, hregisters, -, rfl⟩
    rw [hregisters.frame]

/-- A condition is put on what a builder has collected already. -/
theorem leads_guarded_addPartition (nodes : Partition)
    (outcome : Except Error (Option Value)) (path operator : String) (lead : Value)
    (hsound : b.aliasing.context.IsSound) :
    Leads Builder.Extends (do
        Builder.addPartition nodes
        let expected ← ofExcept outcome
        Builder.require path expected operator lead) b fun _ d =>
      ∃ c, Builder.addPartition nodes b = .ok () c ∧ c.Extends d ∧ d.clauses = c.clauses := by
  refine .bind (leads_addPartition nodes hsound).self ?_
  rintro _ c hbc ⟨hrun, -⟩
  refine .bind (.ofExcept outcome) ?_
  rintro expected _ - ⟨rfl, -⟩
  refine (leads_require path expected operator lead (hbc.sound hsound)).mono fun _ d hcd hd => ?_
  exact ⟨_, hrun, hcd, hd⟩

theorem leads_versionedExpression_finish (base modified : Value) (check : VersionCheck)
    (orphans : Bool) (hsound : context.IsSound) :
    Leads AliasContext.Advances (versionedExpression base modified check orphans) context
      fun expression c => ∃ nodes b d, partition base modified orphans false = .ok nodes ∧
        Builder.addPartition nodes (.start context (.text "")) = .ok () b ∧ b.Extends d ∧
        d.clauses = b.clauses ∧ expression = d.finish ∧ c = d.aliasing.context := by
  refine .bind (.ofExcept _) ?_
  rintro operator _ - ⟨rfl, -⟩
  refine .bind (.ofExcept _) ?_
  rintro nodes c - ⟨rfl, hnodes⟩
  rw [partition_orEmpty] at hnodes
  refine .get ((leads_build (leads_guarded_addPartition nodes _ _ operator _ hsound)).mono ?_)
  rintro _ _ - ⟨d, rfl, rfl, b, hrun, hextends, hclauses⟩
  exact ⟨nodes, b, d, hnodes, hrun, hextends, hclauses, rfl, rfl⟩

end Plain

/-! ### The condition -/

/-- The version that a check knows: the one that it is given or else the one at its path. -/
def VersionCheck.known (check : VersionCheck) (base : Value) (keys : List Key) : Option Value :=
  check.current.or (base.get? keys)

/-- What a check demands of the stored item: that nothing stands at its path, if it knows of no
    version, and otherwise that what stands there compares with the known version, or with the
    version of the modified document. -/
inductive VersionCheck.Demands (check : VersionCheck) (base modified : Value) (keys : List Key) :
    Demand → Prop where
  | absent : check.known base keys = none → Demands check base modified keys (.absent keys)
  | current {operator : String} {version : Value} : check.condition = .text operator →
      check.known base keys = some version → check.expectCurrent = true →
      Demands check base modified keys (.compares keys operator version)
  | modified {operator : String} {version next : Value} : check.condition = .text operator →
      check.known base keys = some version → check.expectCurrent = false →
      modified.get? keys = some next →
      Demands check base modified keys (.compares keys operator next)

section Condition

variable {base modified : Value} {check : VersionCheck} {orphans : Bool} {keys : List Key}
  {operator : String} {expected : Option Value}

theorem VersionCheck.expected_of_known_eq_none (check : VersionCheck)
    (hpath : pathKeys check.path = .ok keys)
    (hknown : check.known base keys = none) : check.expected base modified = .ok none := by
  rw [VersionCheck.known, Option.or_eq_none_iff] at hknown
  simp only [VersionCheck.expected, getPath_eq_ok hpath, hknown.1, hknown.2]
  rfl

theorem VersionCheck.expected_of_known_eq_some (check : VersionCheck) {version : Value}
    (hpath : pathKeys check.path = .ok keys) (hknown : check.known base keys = some version) :
    check.expected base modified =
      if check.expectCurrent then .ok (some version)
      else match modified.get? keys with
        | some next => .ok (some next)
        | none => .error (.missingVersion check.path) := by
  simp only [VersionCheck.expected, getPath_eq_ok hpath]
  rw [VersionCheck.known] at hknown
  cases hcurrent : check.current with
  | none =>
    rw [hcurrent, Option.none_or] at hknown
    rw [hknown]
    rfl
  | some current =>
    rw [hcurrent, Option.some_or] at hknown
    cases hknown
    rfl

/-- The condition on the expected version is the one that the check demands. -/
theorem demands_of_expected (hpath : pathKeys (asPath check.path) = .ok keys)
    (hoperator : check.condition = .text operator)
    (h : VersionCheck.expected { check with path := asPath check.path } base modified =
      .ok expected) :
    check.Demands base modified keys (demandOf (asPath check.path) operator expected) := by
  let moved : VersionCheck := { check with path := asPath check.path }
  cases hknown : check.known base keys with
  | none =>
    rw [moved.expected_of_known_eq_none hpath hknown] at h
    cases h
    rw [demandOf, Builder.keysOf_eq hpath]
    exact .absent hknown
  | some version =>
    rw [moved.expected_of_known_eq_some hpath hknown] at h
    cases hexpect : check.expectCurrent with
    | true =>
      rw [hexpect, if_pos rfl] at h
      cases h
      rw [demandOf, Builder.keysOf_eq hpath]
      exact .current hoperator hknown hexpect
    | false =>
      rw [hexpect, if_neg Bool.false_ne_true] at h
      cases hnext : modified.get? keys with
      | none =>
        rw [hnext] at h
        cases h
      | some next =>
        rw [hnext] at h
        cases h
        rw [demandOf, Builder.keysOf_eq hpath]
        exact .modified hoperator hknown hexpect hnext

end Condition

/-! ### The whole expression -/

/-- In a new context, whatever its prefix, a versioned expression demands what its check does, and
    has the update of the plain expression in a new context without prefix, and all that this one
    registers. -/
theorem exists_includes_of_versionedExpression {base modified lead : Value} {check : VersionCheck}
    {orphans : Bool} {keys : List Key} {counter : Nat} {expression : Expression}
    {context : AliasContext}
    (hpath : pathKeys (asPath check.path) = .ok keys) (hne : keys ≠ [])
    (hrun : versionedExpression base modified check orphans ⟨lead, counter, []⟩ =
      .ok expression context) (hlimit : context.counter < counterLimit) :
    ∃ update demand plain spent,
      expression.meaning = some ⟨update, some demand⟩ ∧
      check.Demands (orEmpty base) (orEmpty modified) keys demand ∧
      updateExpression base modified orphans false ⟨.null, counter, []⟩ = .ok plain spent ∧
      plain.meaning = some ⟨update, none⟩ ∧ expression.Includes plain := by
  have hsound : (⟨lead, counter, []⟩ : AliasContext).IsSound :=
    (AliasContext.IsReachable.fresh lead counter).isSound
  have hroot : pathKeys (asPath check.path) ≠ .ok [] :=
    fun hroot => hne (Except.ok.inj (hpath.symm.trans hroot))
  obtain ⟨operator, nodes, expected, hoperator, hnodes, hexpected, hmeaning⟩ :=
    ((leads_versionedExpression base modified check orphans hsound).ok _ _ hrun).2.exists_meaning_eq
      hroot hlimit
  have hproper := isProper_of_partition hnodes
  have hdemands := demands_of_expected hpath (comparisonOperator_eq_ok_iff.mp hoperator).1 hexpected
  obtain ⟨others, b, d, hothers, hadded, hextends, hclauses, rfl, rfl⟩ :=
    ((leads_versionedExpression_finish base modified check orphans hsound).ok _ _ hrun).2
  rw [partition_orEmpty, hothers] at hnodes
  cases hnodes
  -- The plain expression is what the builder has collected before the condition.
  have hplain : updateExpression base modified orphans false ⟨.null, counter, []⟩ =
      .ok b.finish b.aliasing.context.unled := updateExpression_eq_ok hothers hadded
  have hfresh := (AliasContext.IsReachable.fresh .null counter).isSound
  obtain ⟨same, hsame, hplainMeans⟩ :=
    ((leads_updateExpression base modified orphans false hfresh).ok _ _ hplain).2
  rw [hothers] at hsame
  cases hsame
  have hspent : b.aliasing.context.unled.counter < counterLimit :=
    Int.lt_of_le_of_lt hextends.counter hlimit
  refine ⟨_, _, b.finish, _, hmeaning, hdemands, hplain, hplainMeans hproper hspent, ?_⟩
  exact ⟨congrArg Clauses.text hclauses, hextends.names, hextends.values⟩

/-- Under the empty prefix the condition shares the name of the update, but not its value. -/
theorem exists_includes_of_shared_name :
    ∃ expression context update plain spent,
      versionedExpression (.ofNamed [("version", .int 1)]) (.ofNamed [("version", .int 2)])
        ⟨"version", .text "<", none, false⟩ false ⟨.text "", 1, []⟩ = .ok expression context ∧
      expression.meaning =
        some ⟨update, some (.compares [.name "version"] "<" (.int 2))⟩ ∧
      updateExpression (.ofNamed [("version", .int 1)]) (.ofNamed [("version", .int 2)]) false false
        .fresh = .ok plain spent ∧
      plain.meaning = some ⟨update, none⟩ ∧ expression.Includes plain := by
  have hpath : pathKeys (asPath "version") = .ok [.name "version"] := by
    have htext : asPath "version" = pathText [.name "version"] := by decide
    rw [htext, pathKeys_pathText (by decide)]
  obtain ⟨expression, hrun⟩ := exists_ok_of_succeeds (show succeeds (versionedExpression
    (.ofNamed [("version", .int 1)]) (.ofNamed [("version", .int 2)])
    ⟨"version", .text "<", none, false⟩ false) ⟨.text "", 1, []⟩ = true by decide +kernel)
  obtain ⟨update, demand, plain, spent, hmeaning, hdemands, hplain, hmeans, hincludes⟩ :=
    exists_includes_of_versionedExpression hpath (List.cons_ne_nil _ _) hrun
      (by decide +kernel)
  refine ⟨expression, _, update, plain, spent, hrun, ?_, hplain, hmeans, hincludes⟩
  cases hdemands with
  | absent hknown => cases hknown
  | current _ _ hexpect => cases hexpect
  | modified hoperator _ _ hnext =>
    cases hoperator
    cases hnext
    exact hmeaning

end ItemDelta
