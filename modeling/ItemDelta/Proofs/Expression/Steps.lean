import ItemDelta.Proofs.Alias.Issue
import ItemDelta.Proofs.Expression.Guard

/-!
# What steps and compilations do to the registries

A step of a builder registers the placeholders of its paths and values, and nothing else happens to
the registries and the context, whether the step fails or not. So a relation that each registration
leads along is one that steps lead along. A compilation that succeeds is some steps of a fresh
builder.

## Main definitions

* `Builder.ProceedsBy` — the registries and the context of two builders are related.
* `Builder.Proceeds` — the registries and the context change by registrations only.
* `Compilation` — a request for an expression of any of the three kinds.

## Main results

* `BuilderStep.proceedsBy_run`, `Builder.proceedsBy_runSteps` — a step leads along what each of its
  paths leads along, and so does a run of steps.
* `Builder.proceeds_runSteps` — runs of steps do no more than register.
* `Builder.runSteps_of_addPartition` — the clauses of a regrouped diff come from a run of steps.
* `exists_builder_of_updateExpression`, `exists_builder_of_versionedExpression` — what a compilation
  that succeeds is made of.
-/

namespace ItemDelta

namespace Builder

/-- What is registered for the names on a path, and for a value at its end, leads to related
    states. -/
structure LeadsAlong (related : AliasState → AliasState → Prop) (path : String) : Prop where
  names : ∀ lead (s : AliasState), related s (s.issueAlong lead path).2
  value : ∀ (s : AliasState) parts value,
    related s (stateAfter (AliasState.registerValue parts value) s)

theorem leadsAlong_registrations (path : String) :
    LeadsAlong AliasState.Registrations path where
  names lead s := s.registrations_issueAlong lead path
  value s parts value := .value parts value (.refl s)

/-- The registries and the context of one builder are related to those of another one. -/
def ProceedsBy (related : AliasState → AliasState → Prop) (b c : Builder) : Prop :=
  related b.aliasing c.aliasing

/-- The registries and the context of a builder change by registrations only. -/
abbrev Proceeds : Builder → Builder → Prop := ProceedsBy AliasState.Registrations

variable {related : AliasState → AliasState → Prop} {b c : Builder} {path : String}

instance [Std.Refl related] : Std.Refl (ProceedsBy related) :=
  ⟨fun b => Std.Refl.refl b.aliasing⟩

instance [IsTrans AliasState related] : IsTrans Builder (ProceedsBy related) :=
  ⟨fun b c d => IsTrans.trans b.aliasing c.aliasing d.aliasing⟩

/-! ### Paths and values -/

theorem stateAfter_registering {α : Type} (action : Aliasing α) (b : Builder) :
    stateAfter (registering action) b =
      { b with aliasing := stateAfter action b.aliasing } := by
  rw [stateAfter, registering, stateAfter]
  cases action b.aliasing <;> rfl

theorem eq_ok_of_registering {α : Type} {action : Aliasing α} {result : α}
    (h : registering action b = .ok result c) :
    action b.aliasing = .ok result c.aliasing ∧ c = { b with aliasing := c.aliasing } := by
  rw [registering] at h
  cases haction : action b.aliasing with
  | ok other t =>
    rw [haction] at h
    cases h
    exact ⟨rfl, rfl⟩
  | error fault t =>
    rw [haction] at h
    cases h

theorem aliasedPath_eq (path : String) (lead : Value) (b : Builder) :
    aliasedPath path lead b = registering (aliasPath (leadOr lead b.lead) path) b := rfl

theorem aliased_eq (node : Node) (lead : Value) (b : Builder) :
    aliased node lead b = (registering (aliasNode (leadOr lead b.lead) node) >>= fun texts =>
      pure (⟨texts.1, texts.2⟩ : AliasedNode)) b := rfl

/-- The placeholders of a path are registered, as many as are not refused, and nothing else is. -/
theorem stateAfter_aliasedPath (path : String) (lead : Value) (b : Builder) :
    stateAfter (aliasedPath path lead) b =
      { b with aliasing := (b.aliasing.issueAlong (leadOr lead b.lead) path).2 } := by
  rw [stateAfter, aliasedPath_eq, ← stateAfter, stateAfter_registering, stateAfter_aliasPath]

theorem stateAfter_aliased (node : Node) (lead : Value) (b : Builder) :
    stateAfter (aliased node lead) b = { b with
      aliasing := stateAfter (aliasNode (leadOr lead b.lead) node) b.aliasing } := by
  rw [stateAfter, aliased_eq, ← stateAfter, stateAfter_bind_pure, stateAfter_registering]

theorem aliasedPath_proceedsBy (h : LeadsAlong related path) (lead : Value) :
    Leads (ProceedsBy related) (aliasedPath path lead) b fun _ _ => True := by
  refine (Leads.of_stateAfter ?_).mono fun _ _ _ _ => trivial
  rw [stateAfter_aliasedPath]
  exact h.names _ b.aliasing

theorem aliased_proceedsBy [IsTrans AliasState related] (node : Node)
    (h : LeadsAlong related node.path) (lead : Value) :
    Leads (ProceedsBy related) (aliased node lead) b fun _ _ => True := by
  refine (Leads.of_stateAfter ?_).mono fun _ _ _ _ => trivial
  rw [stateAfter_aliased, ProceedsBy]
  have hnames := h.names (leadOr lead b.lead) b.aliasing
  rcases stateAfter_aliasNode b.aliasing (leadOr lead b.lead) node with heq | ⟨parts, heq⟩
  · exact heq ▸ hnames
  · exact heq ▸ IsTrans.trans _ _ _ hnames (h.value _ parts node.value)

/-! ### Steps -/

/-- Some registrations, and then a change that writes their results down. -/
theorem modify_proceedsBy [Std.Refl related] [IsTrans AliasState related] {α : Type}
    {action : Building α} (change : α → Builder → Builder)
    (haliasing : ∀ result c, (change result c).aliasing = c.aliasing)
    (h : Leads (ProceedsBy related) action b fun _ _ => True) :
    Leads (ProceedsBy related) (action >>= fun result => modify (change result)) b
      fun _ _ => True := by
  refine h.bind fun result c _ _ => .modifyGet ?_ trivial
  rw [ProceedsBy, haliasing]
  exact Std.Refl.refl c.aliasing

end Builder

open Builder

/-- The paths that a step writes down. -/
def BuilderStep.paths : BuilderStep → List String
  | .set nodes | .remove nodes | .delete nodes => pathsOf nodes
  | .require path _ _ _ => [path]

section Steps

variable {related : AliasState → AliasState → Prop} [Std.Refl related]
  [IsTrans AliasState related] {b : Builder}

/-- Whether a step fails or not, it leads to related registries if each of its paths does. -/
theorem BuilderStep.proceedsBy_run (step : BuilderStep)
    (h : ∀ path ∈ step.paths, LeadsAlong related path) :
    Leads (ProceedsBy related) step.run b fun _ _ => True := by
  have hnodes : ∀ nodes : List Node, (∀ path ∈ pathsOf nodes, LeadsAlong related path) →
      Leads (ProceedsBy related) (nodes.mapM (aliased · .null)) b fun _ _ => True :=
    fun nodes h => .mapM_trivial fun node hnode c =>
      aliased_proceedsBy node (h _ (List.mem_map_of_mem hnode)) .null
  cases step with
  | set nodes => exact modify_proceedsBy _ (fun _ _ => rfl) (hnodes nodes h)
  | remove nodes =>
    refine modify_proceedsBy _ (fun _ _ => rfl) ?_
    exact .mapM_trivial fun node hnode c =>
      aliasedPath_proceedsBy (h _ (List.mem_map_of_mem hnode)) .null
  | delete nodes => exact modify_proceedsBy _ (fun _ _ => rfl) (hnodes nodes h)
  | require path expected operator lead =>
    have hpath := h path List.mem_cons_self
    cases expected with
    | none =>
      refine modify_proceedsBy
        (fun text builder => { builder with condition := some (.absent text) })
        (fun _ _ => rfl) ?_
      exact aliasedPath_proceedsBy hpath lead
    | some value =>
      refine modify_proceedsBy (fun (item : AliasedNode) (builder : Builder) =>
        { builder with condition := some (.compares item.path operator item.value) })
        (fun _ _ => rfl) ?_
      exact aliased_proceedsBy ⟨path, value⟩ hpath lead

theorem Builder.runSteps_cons (b : Builder) (step : BuilderStep) (steps : List BuilderStep) :
    (b.runSteps (step :: steps)).1 = ((stateAfter step.run b).runSteps steps).1 := by
  rw [runSteps, stateAfter]
  cases step.run b <;> rfl

/-- So does a run of steps, whichever of them fail. -/
theorem Builder.proceedsBy_runSteps {steps : List BuilderStep}
    (h : ∀ step ∈ steps, ∀ path ∈ step.paths, LeadsAlong related path) :
    ProceedsBy related b (b.runSteps steps).1 := by
  induction steps generalizing b with
  | nil => exact Std.Refl.refl b.aliasing
  | cons step steps ih =>
    rw [runSteps_cons]
    have hstep := (step.proceedsBy_run (b := b) (h step List.mem_cons_self)).stateAfter
    have hsteps := ih (b := stateAfter step.run b) fun other hother => h other (.tail _ hother)
    exact IsTrans.trans _ _ _ hstep hsteps

end Steps

namespace Builder

variable {b : Builder}

/-- A run of steps does nothing to the registries and the context but what registrations do. -/
theorem proceeds_runSteps (b : Builder) (steps : List BuilderStep) :
    b.Proceeds (b.runSteps steps).1 :=
  proceedsBy_runSteps fun _ _ path _ => leadsAlong_registrations path

theorem runSteps_append (b : Builder) (steps others : List BuilderStep) :
    (b.runSteps (steps ++ others)).1 = ((b.runSteps steps).1.runSteps others).1 := by
  induction steps generalizing b with
  | nil => rfl
  | cons step steps ih => rw [List.cons_append, runSteps_cons, ih, runSteps_cons]

/-- The clauses of a regrouped diff are added by a run of its steps. -/
theorem runSteps_of_addPartition {c : Builder} {nodes : Partition} {result : Unit}
    (h : addPartition nodes b = .ok result c) : (b.runSteps nodes.steps).1 = c := by
  obtain ⟨_, d, hset, h⟩ := exists_ok_of_bind h
  obtain ⟨_, e, hremove, hdelete⟩ := exists_ok_of_bind h
  rw [Partition.steps, runSteps_cons, runSteps_cons, runSteps_cons]
  change stateAfter (delete nodes.delete)
    (stateAfter (remove nodes.remove) (stateAfter (set nodes.set) b)) = c
  rw [stateAfter_eq hset, stateAfter_eq hremove, stateAfter_eq hdelete]

end Builder

/-! ### Compilations -/

/-- A request for an expression: for the changes between two documents, for the changes under the
    guard of a version, or for nothing but a version. -/
inductive Compilation where
  | update (base modified : Value) (orphans supportSets : Bool)
  | versioned (base modified : Value) (check : VersionCheck) (orphans : Bool)
  | lock (base : Value) (path : String) (new : Option Value) (condition : Value) (orphans : Bool)

/-- The expression that is asked for. -/
def Compilation.run : Compilation → Compiling Expression
  | .update base modified orphans supportSets =>
    updateExpression base modified orphans supportSets
  | .versioned base modified check orphans => versionedExpression base modified check orphans
  | .lock base path new condition orphans => lockExpression base path new condition orphans

section Succeeding

variable {context after : AliasContext} {expression : Expression} {base modified : Value}
  {orphans : Bool}

theorem exists_of_build {lead : Value} {steps : Building Unit}
    (h : build lead steps context = .ok expression after) :
    ∃ b, steps (Builder.start context lead) = .ok () b ∧ expression = b.finish ∧
      after = b.aliasing.context := by
  rw [build] at h
  cases hsteps : steps (Builder.start context lead) with
  | ok result b =>
    rw [hsteps] at h
    cases h
    exact ⟨b, rfl, rfl, rfl⟩
  | error fault b =>
    rw [hsteps] at h
    cases h

/-- An expression for changes is what a fresh builder makes of the regrouped diff. -/
theorem exists_builder_of_updateExpression {supportSets : Bool}
    (h : updateExpression base modified orphans supportSets context = .ok expression after) :
    ∃ nodes b, partition base modified orphans supportSets = .ok nodes ∧
      addPartition nodes (Builder.start context .null) = .ok () b ∧ expression = b.finish ∧
      after = b.aliasing.context := by
  obtain ⟨nodes, hnodes, h⟩ := exists_ok_of_ofExcept_bind h
  obtain ⟨b, hsteps, hexpression, hafter⟩ := exists_of_build h
  exact ⟨nodes, b, hnodes, hsteps, hexpression, hafter⟩

/-- A guarded expression is what a fresh builder makes of the regrouped diff and a condition in
    one of the ways there are. -/
theorem exists_builder_of_versionedExpression {check : VersionCheck}
    (h : versionedExpression base modified check orphans context = .ok expression after) :
    ∃ nodes b operator expected c, operator ∈ comparisonOperators ∧
      partition (orEmpty base) (orEmpty modified) orphans false = .ok nodes ∧
      addPartition nodes (Builder.start context (.text "")) = .ok () b ∧
      require (asPath check.path) expected operator (conditionLead context) b = .ok () c ∧
      expression = c.finish ∧ after = c.aliasing.context := by
  obtain ⟨operator, hoperator, hrest⟩ := exists_ok_of_ofExcept_bind h
  obtain ⟨nodes, hnodes, -⟩ := exists_ok_of_ofExcept_bind hrest
  rw [versionedExpression_eq_build hoperator hnodes] at h
  obtain ⟨c, hsteps, hexpression, hafter⟩ := exists_of_build h
  obtain ⟨_, b, hadd, hguard⟩ := exists_ok_of_bind hsteps
  obtain ⟨expected, -, hrequire⟩ := exists_ok_of_ofExcept_bind hguard
  exact ⟨nodes, b, operator, expected, c, (comparisonOperator_eq_ok_iff.mp hoperator).2, hnodes,
    hadd, hrequire, hexpression, hafter⟩

/-- An expression for a lock is guarded, between documents that hold nothing but a version. -/
theorem exists_versionedExpression_of_lockExpression {path : String} {new : Option Value}
    {condition : Value}
    (h : lockExpression base path new condition orphans context = .ok expression after) :
    ∃ step old changed, versionStep base (asPath path) new = .ok step ∧
      versionDocument (asPath path) step.current = .ok old ∧
      versionDocument (asPath path) (some step.new) = .ok changed ∧
      versionedExpression old changed ⟨asPath path, condition, step.current, step.expectCurrent⟩
        orphans context = .ok expression after := by
  obtain ⟨step, hstep, h⟩ := exists_ok_of_ofExcept_bind h
  obtain ⟨old, hold, h⟩ := exists_ok_of_ofExcept_bind h
  obtain ⟨changed, hchanged, h⟩ := exists_ok_of_ofExcept_bind h
  exact ⟨step, old, changed, hstep, hold, hchanged, h⟩

end Succeeding

end ItemDelta
