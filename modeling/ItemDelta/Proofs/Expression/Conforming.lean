import ItemDelta.Proofs.Diff.Origin
import ItemDelta.Proofs.Expression.Schema
import ItemDelta.Proofs.Expression.Steps
import ItemDelta.Proofs.Lock.Edits
import ItemDelta.Proofs.Path.Write

/-!
# Compilations conform to the schema

All that a compilation writes down comes from a run of steps of a fresh builder. The names that are
registered in such a run stand on the paths of its steps, and these are paths of nodes of the
documents or that of the version. So where the documents have no empty names, and the path of the
version has none, there is none in the registry, and the expression conforms to the schema.

## Main definitions

* `HasFilledKeys`, `IsFilledVersionPath` — no name on a path is empty.
* `Compilation.HasFilledNames` — no name in the documents and on the path of the version is empty.

## Main results

* `Builder.conforms_runSteps` — what any run of steps comes to conforms to the schema.
* `Compilation.exists_runSteps` — a compilation is a run of steps whose paths have no empty names.
* `Compilation.conforms_run` — what is compiled conforms to the schema.
-/

namespace ItemDelta

open Builder

/-! ### Runs of steps -/

/-- No name that is read from a path is empty. -/
def HasFilledKeys (path : String) : Prop := ∀ keys, pathKeys path = .ok keys → Key.name "" ∉ keys

theorem leadsAlong_admits {path : String} (h : HasFilledKeys path) :
    LeadsAlong (AliasState.Admits (· ≠ "")) path where
  names lead s := s.admits_issueAlong lead fun keys hkeys _ hname hempty =>
    h keys hkeys (hempty ▸ mem_of_mem_namesOf hname)
  value s parts value := s.admits_registerValue parts value

/-- The expression that any run of steps comes to conforms to the schema, whichever of them fail, if
    no name on their paths is empty. -/
theorem Builder.conforms_runSteps {context : AliasContext} (hsound : context.IsSound)
    (lead : Value) {steps : List BuilderStep} (hproper : ∀ step ∈ steps, step.IsProper)
    (hfilled : ∀ step ∈ steps, ∀ path ∈ step.paths, HasFilledKeys path)
    (hlimit : ((Builder.start context lead).runSteps steps).1.aliasing.context.counter <
      counterLimit) :
    ((Builder.start context lead).runSteps steps).1.finish.toValue.conforms = true := by
  have hspells := ((records_start hsound lead).runSteps hproper).spells hlimit
  have hshaped := ((Builder.start context lead).proceeds_runSteps steps).isShaped
    (AliasState.isShaped_start hsound)
  have hadmits : ProceedsBy (AliasState.Admits (· ≠ "")) (Builder.start context lead)
      ((Builder.start context lead).runSteps steps).1 :=
    proceedsBy_runSteps fun step hstep path hpath =>
      leadsAlong_admits (hfilled step hstep path hpath)
  refine conforms_finish hspells hshaped hlimit fun entry hentry => ?_
  exact (hadmits entry hentry).resolve_left List.not_mem_nil

/-! ### Documents -/

section Documents

variable {base modified version : Value} {orphans supportSets : Bool} {nodes : Partition}
  {path : String}

/-- The steps for the diff of two documents without empty names have no empty names on their
    paths. -/
theorem steps_of_partition (h : partition base modified orphans supportSets = .ok nodes)
    (hbase : base.everywhere Value.hasFilledNames = true)
    (hmodified : modified.everywhere Value.hasFilledNames = true) :
    ∀ step ∈ nodes.steps, step.IsProper ∧ ∀ path ∈ step.paths, HasFilledKeys path := by
  have hnamed := isNamed_of_partition h hbase hmodified
  have hnodes : ∀ some : List Node, some ⊆ nodes.set ++ nodes.remove ++ nodes.delete →
      (∀ node ∈ some, pathKeys node.path ≠ .ok []) ∧ ∀ path ∈ pathsOf some, HasFilledKeys path := by
    intro some hsome
    refine ⟨fun node hnode hroot => ?_, List.forall_mem_map.mpr fun node hnode keys hkeys => ?_⟩
    · exact ((hnamed node (hsome hnode)).pathKeys hroot).1 rfl
    · exact ((hnamed node (hsome hnode)).pathKeys hkeys).2
  intro step hstep
  simp only [Partition.steps, List.mem_cons, List.not_mem_nil, or_false] at hstep
  rcases hstep with rfl | rfl | rfl
  · exact hnodes _ (by simp)
  · exact hnodes _ (by simp)
  · exact hnodes _ (by simp)

/-- A document that holds nothing but a version has no empty names, if neither the version nor its
    path has. -/
theorem hasFilledNames_of_versionDocument {current : Option Value} {document : Value}
    (h : versionDocument path current = .ok document) (hpath : HasFilledKeys path)
    (hcurrent : ∀ v ∈ current, v.everywhere Value.hasFilledNames = true) :
    document.everywhere Value.hasFilledNames = true := by
  cases current with
  | none =>
    cases h
    rfl
  | some version =>
    rw [versionDocument, setPath] at h
    cases hkeys : pathKeys path with
    | error fault =>
      rw [hkeys] at h
      cases h
    | ok keys =>
      have hwritten := everywhere_assign (v := .emptyMap)
        (isKeptAlong_hasFilledNames (hpath keys hkeys)) rfl (hcurrent version rfl)
      rw [hkeys, Outcome.toExcept_eq_ok_iff] at h
      dsimp only at h
      rwa [h] at hwritten

/-- What a lock starts from is null or the version at its path, and it goes on to the version that
    is given or the next one. -/
theorem exists_of_versionStep {new : Option Value} {step : VersionStep}
    (h : versionStep base path new = .ok step) :
    ∃ current, (current = some .null ∨ getPath base path = .ok current) ∧
      (step.current = current ∨ step.current = none) ∧
      (new = some step.new ∨ nextVersion current = .ok step.new) := by
  have hgiven : ∀ (current : Option Value) (version : Value),
      Except.ok ⟨current, version, false⟩ = (.ok step : Except Error VersionStep) →
      (step.current = current ∨ step.current = none) ∧
        (some version = some step.new ∨ nextVersion current = .ok step.new) := by
    intro current version h
    cases h
    exact ⟨.inl rfl, .inl rfl⟩
  have hcounted : ∀ current : Option Value,
      ((nextVersion current).bind fun version =>
        .ok ⟨if current = some .null then none else current, version, true⟩) = Except.ok step →
      (step.current = current ∨ step.current = none) ∧
        (none = some step.new ∨ nextVersion current = .ok step.new) := by
    intro current h
    obtain ⟨version, hversion, h⟩ := exists_of_bind_eq_ok h
    cases h
    refine ⟨?_, .inr hversion⟩
    dsimp only
    split
    · exact .inr rfl
    · exact .inl rfl
  rw [versionStep] at h
  split at h
  · refine ⟨some .null, .inl rfl, ?_⟩
    cases new with
    | some version => exact hgiven _ version h
    | none => exact hcounted _ h
  · obtain ⟨current, hcurrent, h⟩ := exists_of_bind_eq_ok h
    refine ⟨current, .inr hcurrent, ?_⟩
    cases new with
    | some version => exact hgiven current version h
    | none => exact hcounted current h

/-- So no version of a lock has empty names, if the base document and a given version have none. -/
theorem hasFilledNames_of_versionStep {new : Option Value} {step : VersionStep}
    (h : versionStep base path new = .ok step)
    (hbase : base.everywhere Value.hasFilledNames = true)
    (hnew : ∀ v ∈ new, v.everywhere Value.hasFilledNames = true) :
    (∀ v ∈ step.current, v.everywhere Value.hasFilledNames = true) ∧
      step.new.everywhere Value.hasFilledNames = true := by
  obtain ⟨current, hsource, hcurrent, hversion⟩ := exists_of_versionStep h
  constructor
  · intro v hv
    rcases hcurrent with heq | heq
    · rw [heq] at hv
      rcases hsource with rfl | hread
      · cases hv
        rfl
      · obtain ⟨keys, -, rfl⟩ := exists_of_getPath hread
        exact Value.everywhere_of_get? hbase hv
    · rw [heq] at hv
      cases hv
  · rcases hversion with heq | hnext
    · exact hnew step.new heq
    · have hnumber := (isNumber_of_nextVersion hnext).1
      cases hvalue : step.new <;> rw [hvalue] at hnumber <;> first | rfl | cases hnumber

end Documents

/-! ### Compilations -/

/-- The path of a version leads somewhere below the root, and no name on it is empty. -/
def IsFilledVersionPath (path : String) : Prop :=
  pathKeys (asPath path) ≠ .ok [] ∧ HasFilledKeys (asPath path)

/-- No member of the documents has the empty name, nor has any of a new version, and no name on the
    path of the version is empty. -/
def Compilation.HasFilledNames : Compilation → Prop
  | .update base modified _ _ =>
    base.everywhere Value.hasFilledNames = true ∧ modified.everywhere Value.hasFilledNames = true
  | .versioned base modified check _ =>
    base.everywhere Value.hasFilledNames = true ∧
      modified.everywhere Value.hasFilledNames = true ∧ IsFilledVersionPath check.path
  | .lock base path new _ _ =>
    base.everywhere Value.hasFilledNames = true ∧
      (∀ version ∈ new, version.everywhere Value.hasFilledNames = true) ∧ IsFilledVersionPath path

section Compiling

variable {context after : AliasContext} {expression : Expression}

/-- A guarded expression between documents without empty names comes from a run of steps that have
    none on their paths. -/
theorem exists_runSteps_of_versionedExpression {base modified : Value} {check : VersionCheck}
    {orphans : Bool} (hbase : base.everywhere Value.hasFilledNames = true)
    (hmodified : modified.everywhere Value.hasFilledNames = true)
    (hpath : IsFilledVersionPath check.path)
    (h : versionedExpression base modified check orphans context = .ok expression after) :
    ∃ lead steps,
      (∀ step ∈ steps, step.IsProper ∧ ∀ path ∈ step.paths, HasFilledKeys path) ∧
      expression = ((Builder.start context lead).runSteps steps).1.finish ∧
      after = ((Builder.start context lead).runSteps steps).1.aliasing.context := by
  obtain ⟨nodes, b, operator, expected, c, hoperator, hnodes, hadd, hrequire, rfl, rfl⟩ :=
    exists_builder_of_versionedExpression h
  have hsteps := steps_of_partition hnodes (hasFilledNames_orEmpty hbase)
    (hasFilledNames_orEmpty hmodified)
  -- The condition is one more step behind those of the diff.
  have hrun : ((Builder.start context (.text "")).runSteps (nodes.guardedSteps (asPath check.path)
      operator expected (conditionLead context))).1 = c := by
    rw [Partition.guardedSteps, runSteps_append, runSteps_of_addPartition hadd, runSteps_cons]
    exact stateAfter_eq hrequire
  refine ⟨.text "", _, ?_, congrArg Builder.finish hrun.symm,
    congrArg (·.aliasing.context) hrun.symm⟩
  intro step hstep
  rcases List.mem_append.mp hstep with hstep | hstep
  · exact hsteps step hstep
  · rw [List.mem_singleton.mp hstep]
    exact ⟨⟨hpath.1, hoperator⟩, List.forall_mem_singleton.mpr hpath.2⟩

/-- An expression for documents without empty names comes from a run of steps that have none on
    their paths. -/
theorem Compilation.exists_runSteps {compilation : Compilation}
    (hnames : compilation.HasFilledNames) (h : compilation.run context = .ok expression after) :
    ∃ lead steps,
      (∀ step ∈ steps, step.IsProper ∧ ∀ path ∈ step.paths, HasFilledKeys path) ∧
      expression = ((Builder.start context lead).runSteps steps).1.finish ∧
      after = ((Builder.start context lead).runSteps steps).1.aliasing.context := by
  cases compilation with
  | update base modified orphans supportSets =>
    obtain ⟨nodes, b, hnodes, hadd, rfl, rfl⟩ := exists_builder_of_updateExpression h
    have hrun := runSteps_of_addPartition hadd
    exact ⟨.null, nodes.steps, steps_of_partition hnodes hnames.1 hnames.2,
      congrArg Builder.finish hrun.symm, congrArg (·.aliasing.context) hrun.symm⟩
  | versioned base modified check orphans =>
    exact exists_runSteps_of_versionedExpression hnames.1 hnames.2.1 hnames.2.2 h
  | lock base path new condition orphans =>
    obtain ⟨hbase, hnew, hpath⟩ := hnames
    obtain ⟨step, old, changed, hstep, hold, hchanged, h⟩ :=
      exists_versionedExpression_of_lockExpression h
    -- The documents that are compared hold nothing but the old and the new version.
    obtain ⟨hcurrent, hversion⟩ := hasFilledNames_of_versionStep hstep hbase hnew
    refine exists_runSteps_of_versionedExpression
      (hasFilledNames_of_versionDocument hold hpath.2 hcurrent)
      (hasFilledNames_of_versionDocument hchanged hpath.2 ?_) ?_ h
    · rintro _ ⟨⟩
      exact hversion
    · rw [IsFilledVersionPath, asPath_asPath]
      exact hpath

/-- The expression of a compilation conforms to the schema, whatever the documents are and whatever
    the context was used for before, if no names are empty and the counter leaves room for
    suffixes. -/
theorem Compilation.conforms_run {compilation : Compilation} (hcontext : context.IsReachable)
    (hnames : compilation.HasFilledNames)
    (hrun : compilation.run context = .ok expression after)
    (hlimit : after.counter < counterLimit) : expression.toValue.conforms = true := by
  obtain ⟨lead, steps, hsteps, rfl, rfl⟩ := Compilation.exists_runSteps hnames hrun
  exact Builder.conforms_runSteps hcontext.isSound lead (fun step hstep => (hsteps step hstep).1)
    (fun step hstep => (hsteps step hstep).2) hlimit

/-- A version whose name has a line feed, delimiters and a letter that has two capitals, in a
    context that was used before under a prefix with a delimiter. -/
theorem conforms_run_of_delimiters :
    ∃ expression after,
      (Compilation.lock .null "\n=, #ß" none (.text "<>") true).run
          (stateAfter (updateExpression .emptyMap (.ofNamed [("ß", .int 1)]) false false)
            ⟨.text "x:", 1, []⟩) = .ok expression after ∧
      expression.names.map Prod.fst = ["#ß", "#xSS"] ∧
      expression.toValue.conforms = true := by
  have hcompiled : ((outcome? (Compilation.lock .null "\n=, #ß" none (.text "<>") true).run
      (stateAfter (updateExpression .emptyMap (.ofNamed [("ß", .int 1)]) false false)
        ⟨.text "x:", 1, []⟩)).map fun r => (r.1.names.map Prod.fst, r.2.counter)) =
      some (["#ß", "#xSS"], 1) := by decide +kernel
  have hkeys : pathKeys (asPath "\n=, #ß") = .ok [.name "\n=, #ß"] := by
    have htext : asPath "\n=, #ß" = pathText [.name "\n=, #ß"] := by decide +kernel
    rw [htext, pathKeys_pathText (by decide)]
  have hpath : IsFilledVersionPath "\n=, #ß" := by
    constructor
    · rw [hkeys]
      exact fun h => by cases h
    · intro keys h
      cases hkeys.symm.trans h
      decide
  obtain ⟨⟨expression, after⟩, hrun, hresult⟩ := Option.map_eq_some_iff.mp hcompiled
  obtain ⟨hnames, hcounter⟩ := Prod.mk.inj hresult
  have hrun := eq_ok_of_outcome? hrun
  have hlimit : after.counter < counterLimit := by
    rw [hcounter]
    decide
  have hfilled : (Compilation.lock .null "\n=, #ß" none (.text "<>") true).HasFilledNames :=
    ⟨rfl, fun v hv => absurd hv (Option.not_mem_none v), hpath⟩
  have hconforms := Compilation.conforms_run
    (.updated .emptyMap (.ofNamed [("ß", .int 1)]) false false (.fresh (.text "x:") 1))
    hfilled hrun hlimit
  exact ⟨expression, after, hrun, hnames, hconforms⟩

end Compiling

end ItemDelta
