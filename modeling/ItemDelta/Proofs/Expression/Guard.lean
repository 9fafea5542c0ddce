import ItemDelta.Proofs.Diff.Buckets
import ItemDelta.Proofs.Diff.Origin
import ItemDelta.Proofs.Expression.Compilation

/-!
# Expressions for the changes between two documents

The nodes of a diff have paths that can be read back, so the steps of an expression for it are
proper, and what the expression means can be told from the structural diff of the documents.

## Main definitions

* `Meaning.assignments`, `Meaning.removals` — what an expression assigns, and what it removes.

## Main results

* `isProper_of_partition` — the steps for the changes between two documents are proper.
* `IsGuarded.exists_meaning_eq` — a guarded expression says what the nodes of the diff say, and
  what its condition demands.
* `IsGuarded.exists_meaning` — the condition and the assignments of a guarded expression.
-/

namespace ItemDelta

/-! ### Assignments and removals -/

/-- The values that a clause assigns, and where to. -/
def UpdateClause.assignments : UpdateClause → List (List Key × Value)
  | .set items => items
  | .remove _ | .delete _ => []

/-- The values that an expression assigns, and where to. -/
def Meaning.assignments (meaning : Meaning) : List (List Key × Value) :=
  meaning.update.flatMap UpdateClause.assignments

/-- The places that a clause clears. -/
def UpdateClause.removals : UpdateClause → List (List Key)
  | .remove items => items
  | .set _ | .delete _ => []

/-- The places that an expression clears. -/
def Meaning.removals (meaning : Meaning) : List (List Key) :=
  meaning.update.flatMap UpdateClause.removals

/-- What the clauses that have items list is what all three clauses list. -/
theorem Request.flatMap_update (request : Request) {α : Type} (listed : UpdateClause → List α)
    (hset : listed (.set []) = []) (hremove : listed (.remove []) = [])
    (hdelete : listed (.delete []) = []) :
    request.meaning.update.flatMap listed = listed (.set request.set) ++
      listed (.remove request.remove) ++ listed (.delete request.delete) := by
  have hitems : ∀ {β : Type} (make : List β → UpdateClause) (items : List β),
      listed (make []) = [] → (UpdateClause.ofItems make items).flatMap listed =
        listed (make items) := by
    intro β make items hnil
    cases items with
    | nil => exact hnil.symm
    | cons item items => simp [UpdateClause.ofItems]
  rw [Request.meaning, List.flatMap_append, List.flatMap_append, hitems _ _ hset,
    hitems _ _ hremove, hitems _ _ hdelete]

theorem Request.assignments_meaning (request : Request) :
    request.meaning.assignments = request.set := by
  rw [Meaning.assignments, request.flatMap_update _ rfl rfl rfl]
  simp [UpdateClause.assignments]

theorem Request.removals_meaning (request : Request) :
    request.meaning.removals = request.remove := by
  rw [Meaning.removals, request.flatMap_update _ rfl rfl rfl]
  simp [UpdateClause.removals]

/-! ### The nodes of a regrouped diff -/

section Nodes

variable {orphans : Bool} {a b : Value} {nodes : Partition}

theorem Node.target_along {keys : List Key} (h : ∀ key ∈ keys, key.isLegible = true) (w : Value) :
    (Node.along keys w).target = (keys, w) := by
  rw [Node.target, Node.along_path, Node.along_value, Builder.keysOf_eq (pathKeys_pathText h)]

theorem eq_of_partition (ha : a.everywhere Value.hasNames = true)
    (hb : b.everywhere Value.hasNames = true) (hshares : a.sharesContainer b = true)
    (h : partition a b orphans false = .ok nodes) :
    a.IsReadable ∧ b.IsReadable ∧
      nodes = ⟨(structuralDiff orphans a b).add ++ (structuralDiff orphans a b).set,
        (structuralDiff orphans a b).delete, []⟩ := by
  rw [partition] at h
  cases hdiff : diff a b orphans with
  | error fault =>
    rw [hdiff] at h
    cases h
  | ok d =>
    rw [hdiff] at h
    obtain ⟨ha, hb, rfl⟩ := eq_structuralDiff_of_diff ha hb hshares hdiff
    exact ⟨ha, hb, (Except.ok.inj h).symm⟩

/-- The steps for the changes between two documents are proper. -/
theorem isProper_of_partition {supportSets : Bool}
    (h : partition a b orphans supportSets = .ok nodes) : ∀ step ∈ nodes.steps, step.IsProper := by
  have hpaths := pathKeys_ne_of_partition h
  intro step hstep
  simp only [Partition.steps, List.mem_cons, List.not_mem_nil, or_false] at hstep
  rcases hstep with rfl | rfl | rfl
  · exact fun n hn => hpaths n (List.mem_append_left _ (List.mem_append_left _ hn))
  · exact fun n hn => hpaths n (List.mem_append_left _ (List.mem_append_right _ hn))
  · exact fun n hn => hpaths n (List.mem_append_right _ hn)

theorem mem_targets_bucketNodes (ha : a.IsReadable) (hb : b.IsReadable)
    (hshares : a.sharesContainer b = true) {bucket : Bucket} {keys : List Key} {w : Value} :
    (keys, w) ∈ (bucketNodes bucket (structuralEdits orphans a b)).map Node.target ↔
      ⟨bucket, keys, w⟩ ∈ structuralEdits orphans a b := by
  have htarget : ∀ others x, ⟨bucket, others, x⟩ ∈ structuralEdits orphans a b →
      (Node.along others x).target = (others, x) := by
    intro others x hedit
    have hedit := ((mem_structuralEdits_iff ha.named hb.named hshares).mp hedit).2
    exact Node.target_along (isLegible_of_isEdit ha hb hedit) x
  rw [List.mem_map]
  constructor
  · rintro ⟨n, hn, heq⟩
    obtain ⟨others, x, hedit, rfl⟩ := mem_bucketNodes.mp hn
    rw [htarget others x hedit] at heq
    cases heq
    exact hedit
  · intro hedit
    exact ⟨_, mem_bucketNodes.mpr ⟨keys, w, hedit, rfl⟩, htarget keys w hedit⟩

/-- What is assigned for the changes between two documents is what is added or set. -/
theorem mem_targets_of_partition (ha : a.everywhere Value.hasNames = true)
    (hb : b.everywhere Value.hasNames = true) (hshares : a.sharesContainer b = true)
    (h : partition a b orphans false = .ok nodes) {keys : List Key} {w : Value} :
    (keys, w) ∈ nodes.set.map Node.target ↔
      ⟨.add, keys, w⟩ ∈ structuralEdits orphans a b ∨
        ⟨.set, keys, w⟩ ∈ structuralEdits orphans a b := by
  obtain ⟨ha, hb, rfl⟩ := eq_of_partition ha hb hshares h
  rw [List.map_append, List.mem_append]
  exact or_congr (mem_targets_bucketNodes ha hb hshares) (mem_targets_bucketNodes ha hb hshares)

end Nodes

/-! ### Guarded expressions -/

theorem Value.IsDocument.orEmpty_eq {a : Value} (h : a.IsDocument) : orEmpty a = a := by
  obtain ⟨members, rfl⟩ := h.exists_eq_map
  rfl

theorem comparisonOperator_eq_ok_iff {condition : Value} {operator : String} :
    comparisonOperator condition = .ok operator ↔
      condition = .text operator ∧ operator ∈ comparisonOperators := by
  constructor
  · intro h
    cases condition with
    | text other =>
      rw [comparisonOperator] at h
      by_cases hknown : comparisonOperators.contains other = true
      · rw [if_pos hknown] at h
        cases h
        exact ⟨rfl, List.contains_iff_mem.mp hknown⟩
      · rw [if_neg hknown] at h
        cases h
    | _ =>
      simp only [comparisonOperator] at h
      split at h <;> cases h
  · rintro ⟨rfl, hknown⟩
    rw [comparisonOperator, if_pos (List.contains_iff_mem.mpr hknown)]

theorem Partition.meaning_guardedSteps (nodes : Partition) (path operator : String)
    (expected : Option Value) (lead : Value) :
    (Request.ofSteps (nodes.guardedSteps path operator expected lead)).meaning =
      ⟨(Request.ofSteps nodes.steps).meaning.update, some (demandOf path operator expected)⟩ := by
  rw [Partition.guardedSteps, Request.ofSteps, List.foldl_append]
  rfl

section Guarded

variable {base modified lead : Value} {check : VersionCheck} {orphans : Bool}
  {expression : Expression} {context : AliasContext}

/-- A guarded expression says what the steps for the regrouped diff say, and demands what is
    expected of the version. -/
theorem IsGuarded.exists_meaning_eq
    (h : IsGuarded base modified check orphans lead expression context)
    (hpath : pathKeys (asPath check.path) ≠ .ok []) (hlimit : context.counter < counterLimit) :
    ∃ operator nodes expected, comparisonOperator check.condition = .ok operator ∧
      partition (orEmpty base) (orEmpty modified) orphans false = .ok nodes ∧
      VersionCheck.expected { check with path := asPath check.path } (orEmpty base)
        (orEmpty modified) = .ok expected ∧
      expression.meaning = some ⟨(Request.ofSteps nodes.steps).meaning.update,
        some (demandOf (asPath check.path) operator expected)⟩ := by
  obtain ⟨operator, nodes, expected, hoperator, hnodes, hexpected, hmeaning⟩ := h
  have hproper : ∀ step ∈ nodes.guardedSteps (asPath check.path) operator expected lead,
      step.IsProper := by
    intro step hstep
    rcases List.mem_append.mp hstep with hstep | hstep
    · exact isProper_of_partition hnodes step hstep
    · rw [List.mem_singleton.mp hstep]
      exact ⟨hpath, (comparisonOperator_eq_ok_iff.mp hoperator).2⟩
  have hmeans := hmeaning hproper hlimit
  rw [Partition.meaning_guardedSteps] at hmeans
  exact ⟨operator, nodes, expected, hoperator, hnodes, hexpected, hmeans⟩

/-- A guarded expression demands what is expected of the version, and assigns what is added or
    set. -/
theorem IsGuarded.exists_meaning
    (h : IsGuarded base modified check orphans lead expression context)
    (hbase : base.IsDocument) (hmodified : modified.IsDocument)
    (hpath : pathKeys (asPath check.path) ≠ .ok []) (hlimit : context.counter < counterLimit) :
    ∃ operator expected meaning, comparisonOperator check.condition = .ok operator ∧
      VersionCheck.expected { check with path := asPath check.path } base modified =
        .ok expected ∧
      expression.meaning = some meaning ∧
      meaning.condition = some (demandOf (asPath check.path) operator expected) ∧
      ∀ keys w, (keys, w) ∈ meaning.assignments ↔
        ⟨.add, keys, w⟩ ∈ structuralEdits orphans base modified ∨
          ⟨.set, keys, w⟩ ∈ structuralEdits orphans base modified := by
  obtain ⟨operator, nodes, expected, hoperator, hnodes, hexpected, hmeaning⟩ :=
    h.exists_meaning_eq hpath hlimit
  rw [hbase.orEmpty_eq, hmodified.orEmpty_eq] at hnodes hexpected
  refine ⟨operator, expected, _, hoperator, hexpected, hmeaning, rfl, fun keys w => ?_⟩
  have hassignments := (Request.ofSteps nodes.steps).assignments_meaning
  rw [Meaning.assignments] at hassignments ⊢
  rw [hassignments]
  exact mem_targets_of_partition hbase.named hmodified.named
    (sharesContainer_of_isDocument hbase hmodified) hnodes

/-- Once the diff is regrouped, an expression is what a builder makes of its nodes. -/
theorem updateExpression_eq_build {supportSets : Bool} {nodes : Partition}
    (hnodes : partition base modified orphans supportSets = .ok nodes)
    (context : AliasContext) : updateExpression base modified orphans supportSets context =
      build .null (Builder.addPartition nodes) context := by
  rw [updateExpression, ofExcept_bind_of_ok hnodes]

/-- So is a versioned expression. -/
theorem versionedExpression_eq_build {operator : String} {nodes : Partition}
    (hoperator : comparisonOperator check.condition = .ok operator)
    (hnodes : partition (orEmpty base) (orEmpty modified) orphans false = .ok nodes)
    (context : AliasContext) :
    versionedExpression base modified check orphans context =
      build (.text "") (do
        Builder.addPartition nodes
        let expected ← ofExcept (VersionCheck.expected { check with path := asPath check.path }
          (orEmpty base) (orEmpty modified))
        Builder.require (asPath check.path) expected operator (conditionLead context)) context := by
  rw [versionedExpression, ofExcept_bind_of_ok hoperator, ofExcept_bind_of_ok hnodes, get_bind]

end Guarded

end ItemDelta
