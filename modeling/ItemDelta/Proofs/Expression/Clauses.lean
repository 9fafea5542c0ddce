import ItemDelta.Report.Expression
import ItemDelta.Proofs.Expression.Steps
import ItemDelta.Proofs.Expression.Versioned

/-!
# The clauses of a compiled expression

A report shows each clause of an update on a line of its own. It finds the clauses in the text, by
their keywords. Names never get into the text themselves, and a placeholder has no blank in it, so
no keyword stands behind a blank but where a clause starts: what is found are the clauses that the
builder has joined.

## Main definitions

* `Compilation.nodes` — the regrouped diff that a compilation writes down.

## Main results

* `Builder.splitClauses_of_addPartition` — the clauses that a builder writes down for a diff are
  found again.
* `Compilation.splitClauses_run` — so are those of any compilation.
-/

namespace ItemDelta

open Builder

/-- The regrouped diff that a compilation writes down: that of the documents or, for a lock, that of
    two documents with nothing but a version. -/
def Compilation.nodes : Compilation → Except Error Partition
  | .update base modified orphans supportSets => partition base modified orphans supportSets
  | .versioned base modified _ orphans => partition base modified orphans false
  | .lock base path new _ orphans => do
    let step ← versionStep base (asPath path) new
    let before ← versionDocument (asPath path) step.current
    let after ← versionDocument (asPath path) (some step.new)
    partition before after orphans false

/-- The prefix of the placeholders in the clauses of a compilation. -/
def Compilation.lead : Compilation → Value
  | .update .. => .null
  | .versioned .. | .lock .. => .text ""

section Splitting

variable {context after : AliasContext} {expression : Expression} {compilation : Compilation}

/-- The clauses that a fresh builder writes down for a regrouped diff are found again. -/
theorem Builder.splitClauses_of_addPartition {base modified lead : Value}
    {orphans supportSets : Bool} {nodes : Partition} {b : Builder} (hsound : context.IsSound)
    (hnodes : partition base modified orphans supportSets = .ok nodes)
    (h : addPartition nodes (start context lead) = .ok () b)
    (hlimit : b.aliasing.context.counter < counterLimit) :
    splitClauses b.clauses.text.toList = b.clauses.texts.map String.toList := by
  have hrecords := ((leads_addPartition nodes hsound).ok () b h).2 (isProper_of_partition hnodes)
    _ (records_start hsound lead)
  have hspells := hrecords.spells hlimit
  exact splitClauses_text_of_spells hspells.set hspells.remove hspells.delete

/-- The clauses of a compiled expression are those that a fresh builder has written down for the
    diff; a condition changes nothing about them. -/
theorem Compilation.exists_builder (hsound : context.IsSound)
    (h : compilation.run context = .ok expression after) :
    ∃ base modified orphans supportSets nodes b,
      compilation.nodes = partition base modified orphans supportSets ∧
      partition base modified orphans supportSets = .ok nodes ∧
      addPartition nodes (start context compilation.lead) = .ok () b ∧
      expression.update = b.clauses.text ∧
      b.aliasing.context.counter ≤ after.counter := by
  have hversioned : ∀ {base modified : Value} {check : VersionCheck} {orphans : Bool},
      versionedExpression base modified check orphans context = .ok expression after →
      ∃ nodes b, partition base modified orphans false = .ok nodes ∧
        addPartition nodes (start context (.text "")) = .ok () b ∧
        expression.update = b.clauses.text ∧ b.aliasing.context.counter ≤ after.counter := by
    intro base modified check orphans h
    obtain ⟨nodes, b, c, hnodes, hadd, hextends, hclauses, rfl, rfl⟩ :=
      ((leads_versionedExpression_finish base modified check orphans hsound).ok _ _ h).2
    exact ⟨nodes, b, hnodes, hadd, congrArg Clauses.text hclauses, hextends.counter⟩
  cases compilation with
  | update base modified orphans supportSets =>
    obtain ⟨nodes, b, hnodes, hadd, rfl, rfl⟩ := exists_builder_of_updateExpression h
    exact ⟨base, modified, orphans, supportSets, nodes, b, rfl, hnodes, hadd, rfl, Int.le_refl _⟩
  | versioned base modified check orphans =>
    obtain ⟨nodes, b, hnodes, hadd, hupdate, hcounter⟩ := hversioned h
    exact ⟨base, modified, orphans, false, nodes, b, rfl, hnodes, hadd, hupdate, hcounter⟩
  | lock base path new condition orphans =>
    obtain ⟨step, before, changed, hstep, hbefore, hchanged, h⟩ :=
      exists_versionedExpression_of_lockExpression h
    obtain ⟨nodes, b, hnodes, hadd, hupdate, hcounter⟩ := hversioned h
    have hsame : (Compilation.lock base path new condition orphans).nodes =
        partition before changed orphans false := by
      simp only [Compilation.nodes, hstep, hbefore, hchanged, bind, Except.bind]
    exact ⟨before, changed, orphans, false, nodes, b, hsame, hnodes, hadd, hupdate, hcounter⟩

/-- The update of a compiled expression splits into the clauses that its builder has joined, one for
    each kind of change that there is and in their order, whatever names and values the documents
    hold. Joined by blanks they are the update again, and there are none just if it is empty. -/
theorem Compilation.splitClauses_run (hcontext : context.IsReachable)
    (hrun : compilation.run context = .ok expression after)
    (hlimit : after.counter < counterLimit) :
    ∃ nodes builder, compilation.nodes = .ok nodes ∧
      addPartition nodes (start context compilation.lead) = .ok () builder ∧
      (splitClauses expression.update.toList).map String.ofList =
        clause "SET" (builder.clauses.set.map AliasedNode.assignment) ++
          clause "REMOVE" builder.clauses.remove ++
          clause "DELETE" (builder.clauses.delete.map AliasedNode.deletion) ∧
      " ".intercalate ((splitClauses expression.update.toList).map String.ofList) =
        expression.update ∧
      (splitClauses expression.update.toList = [] ↔ expression.update = "") := by
  obtain ⟨base, modified, orphans, supportSets, nodes, builder, hsame, hnodes, hadd, hupdate,
    hcounter⟩ := Compilation.exists_builder hcontext.isSound hrun
  have hsplit := splitClauses_of_addPartition hcontext.isSound hnodes hadd
    (Int.lt_of_le_of_lt hcounter hlimit)
  have hpieces : (splitClauses expression.update.toList).map String.ofList =
      builder.clauses.texts := by
    rw [hupdate, hsplit, List.map_map]
    exact List.map_id'' (fun text => String.ofList_toList) _
  have hjoined : " ".intercalate ((splitClauses expression.update.toList).map String.ofList) =
      expression.update := by
    rw [hpieces, hupdate, Clauses.text]
  refine ⟨nodes, builder, hsame.trans hnodes, hadd, hpieces, hjoined, fun hnone => ?_,
    fun hempty => ?_⟩
  · rw [← hjoined, hnone]
    rfl
  · rw [hempty]
    rfl

/-- Names with keywords and blanks in them, under a prefix that is a keyword with blanks around it,
    in a context that knows a name of the same camel-cased form. -/
theorem splitClauses_run_of_keywords :
    ∃ expression after,
      (Compilation.update (.ofNamed [("a SET b", .int 1)]) (.ofNamed [(" REMOVE x", .int 2)]) false
          true).run
        (stateAfter (updateExpression .emptyMap (.ofNamed [("A set B", .int 1)]) false false)
          ⟨.text " SET ", 1, []⟩) = .ok expression after ∧
      expression.update = "SET #setRemoveX = :setRemoveX REMOVE #setASetB" ∧
      " ".intercalate ((splitClauses expression.update.toList).map String.ofList) =
        expression.update ∧
      splitClauses expression.update.toList ≠ [] := by
  have hcompiled : ((outcome? (Compilation.update (.ofNamed [("a SET b", .int 1)])
      (.ofNamed [(" REMOVE x", .int 2)]) false true).run
      (stateAfter (updateExpression .emptyMap (.ofNamed [("A set B", .int 1)]) false false)
        ⟨.text " SET ", 1, []⟩)).map fun r => (r.1.update, r.2.counter)) =
      some ("SET #setRemoveX = :setRemoveX REMOVE #setASetB", 1) := by decide +kernel
  obtain ⟨⟨expression, after⟩, hrun, hresult⟩ := Option.map_eq_some_iff.mp hcompiled
  obtain ⟨hupdate, hcounter⟩ := Prod.mk.inj hresult
  have hrun := eq_ok_of_outcome? hrun
  have hlimit : after.counter < counterLimit := by
    rw [hcounter]
    decide
  obtain ⟨nodes, builder, -, -, -, hjoined, hempty⟩ := Compilation.splitClauses_run
    (.updated .emptyMap (.ofNamed [("A set B", .int 1)]) false false (.fresh (.text " SET ") 1))
    hrun hlimit
  refine ⟨expression, after, hrun, hupdate, hjoined, fun hnone => ?_⟩
  have hblank := hempty.mp hnone
  rw [hupdate] at hblank
  exact absurd hblank (by decide)

end Splitting

end ItemDelta
