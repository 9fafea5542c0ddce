import ItemDelta.Proofs.Expression.Decoding

/-!
# Compilations

A compilation runs the steps of a fresh builder on a context that it may share with others. The
context may have been used before in any way: all that is noted in it are placeholders, and these
are registered again only where they are free.

## Main definitions

* `AliasContext.Advances` — what becomes of a context in a compilation.
* `AliasContext.IsReachable` — the contexts that are fresh or were used before.
* `Partition.steps` — the steps for a regrouped diff.

## Main results

* `leads_updateExpression`, `leads_versionedExpression`, `leads_lockExpression` — the meaning of
  what is compiled.
* `meaning_finish_runSteps` — what is written down by any run of steps means what these said.
-/

namespace ItemDelta

/-! ### Contexts -/

/-- The counter of a context does not go back, and a sound context stays sound. -/
structure AliasContext.Advances (c d : AliasContext) : Prop where
  counter : c.counter ≤ d.counter
  sound : c.IsSound → d.IsSound

instance : Std.Refl AliasContext.Advances := ⟨fun _ => ⟨Int.le_refl _, fun h => h⟩⟩

instance : IsTrans AliasContext AliasContext.Advances :=
  ⟨fun _ _ _ h h' => ⟨Int.le_trans h.counter h'.counter, fun hsound => h'.sound (h.sound hsound)⟩⟩

theorem Builder.Extends.advances {b c : Builder} (h : b.Extends c) :
    b.aliasing.context.Advances c.aliasing.context :=
  ⟨h.counter, h.sound⟩

theorem leads_build {context : AliasContext} {lead : Value} {steps : Building Unit}
    {post : Unit → Builder → Prop}
    (h : Leads Builder.Extends steps (Builder.start context lead) post) :
    Leads AliasContext.Advances (build lead steps) context fun expression c =>
      ∃ b, expression = b.finish ∧ c = b.aliasing.context ∧ post () b := by
  cases hsteps : steps (Builder.start context lead) with
  | ok result b =>
    obtain ⟨hextends, hpost⟩ := h.ok result b hsteps
    have hrun : build lead steps context = .ok b.finish b.aliasing.context := by
      rw [build, hsteps]
    exact .of_ok hrun hextends.advances ⟨b, rfl, rfl, hpost⟩
  | error fault b =>
    have hextends := h.error fault b hsteps
    have hrun : build lead steps context = .error fault b.aliasing.context := by
      rw [build, hsteps]
    exact .of_error hrun hextends.advances

/-! ### Compiled expressions -/

/-- The steps for a regrouped diff. -/
def Partition.steps (nodes : Partition) : List BuilderStep :=
  [.set nodes.set, .remove nodes.remove, .delete nodes.delete]

section Compiling

variable {context : AliasContext} {b : Builder}

theorem leads_addPartition (nodes : Partition) (hsound : b.aliasing.context.IsSound) :
    Leads Builder.Extends (Builder.addPartition nodes) b fun _ c =>
      (∀ step ∈ nodes.steps, step.IsProper) → ∀ request, b.Records request →
        c.Records (nodes.steps.foldl BuilderStep.addTo request) := by
  refine .bind ((BuilderStep.set nodes.set).leads_run hsound).1 fun _ c hbc hset => ?_
  refine .bind ((BuilderStep.remove nodes.remove).leads_run (hbc.sound hsound)).1
    fun _ d hcd hremove => ?_
  have hd : d.aliasing.context.IsSound := hcd.sound (hbc.sound hsound)
  refine ((BuilderStep.delete nodes.delete).leads_run hd).1.mono fun _ e _ hdelete => ?_
  intro hproper request hrecords
  have hsets := hset (hproper _ (by simp [Partition.steps])) request hrecords
  have hremoves := hremove (hproper _ (by simp [Partition.steps])) _ hsets
  exact hdelete (hproper _ (by simp [Partition.steps])) _ hremoves

/-- The expression for the changes between two documents asks for just the nodes of the regrouped
    diff. -/
theorem leads_updateExpression (base modified : Value) (orphans supportSets : Bool)
    (hsound : context.IsSound) :
    Leads AliasContext.Advances (updateExpression base modified orphans supportSets) context
      fun expression c => ∃ nodes, partition base modified orphans supportSets = .ok nodes ∧
        ((∀ step ∈ nodes.steps, step.IsProper) → c.counter < counterLimit →
          expression.meaning = some (Request.ofSteps nodes.steps).meaning) := by
  refine .bind (.ofExcept _) ?_
  rintro nodes _ - ⟨rfl, hnodes⟩
  refine (leads_build (leads_addPartition nodes hsound)).mono ?_
  rintro _ _ - ⟨b, rfl, rfl, hrecords⟩
  refine ⟨nodes, hnodes, fun hproper hlimit => ?_⟩
  exact (hrecords hproper _ (Builder.records_start hsound _)).meaning_finish hlimit

/-- The steps for a regrouped diff, and a condition on an expected value. -/
def Partition.guardedSteps (nodes : Partition) (path operator : String) (expected : Option Value)
    (lead : Value) : List BuilderStep :=
  nodes.steps ++ [.require path expected operator lead]

theorem leads_guarded (nodes : Partition) (outcome : Except Error (Option Value))
    (path operator : String) (lead : Value) (hsound : b.aliasing.context.IsSound) :
    Leads Builder.Extends (do
        Builder.addPartition nodes
        let expected ← ofExcept outcome
        Builder.require path expected operator lead) b fun _ c =>
      ∃ expected, outcome = .ok expected ∧
        ((∀ step ∈ nodes.guardedSteps path operator expected lead, step.IsProper) →
          ∀ request, b.Records request →
            c.Records ((nodes.guardedSteps path operator expected lead).foldl
              BuilderStep.addTo request)) := by
  refine .bind (leads_addPartition nodes hsound) fun _ c hbc hadded => ?_
  refine .bind (.ofExcept outcome) ?_
  rintro expected d - ⟨rfl, hexpected⟩
  refine ((BuilderStep.require path expected operator lead).leads_run
    (hbc.sound hsound)).1.mono fun _ e _ hrequire => ?_
  refine ⟨expected, hexpected, fun hproper request hrecords => ?_⟩
  have hsteps := hadded (fun step hstep => hproper step (List.mem_append_left _ hstep)) request
    hrecords
  rw [Partition.guardedSteps, List.foldl_append]
  exact hrequire (hproper _ (List.mem_append_right _ (List.mem_singleton_self _))) _ hsteps

/-- An expression asks for just the nodes of the regrouped diff of two documents, under the
    condition on the expected version, as long as the counter leaves room for suffixes. -/
def IsGuarded (base modified : Value) (check : VersionCheck) (orphans : Bool) (lead : Value)
    (expression : Expression) (context : AliasContext) : Prop :=
  ∃ operator nodes expected,
    comparisonOperator check.condition = .ok operator ∧
    partition (orEmpty base) (orEmpty modified) orphans false = .ok nodes ∧
    VersionCheck.expected { check with path := asPath check.path } (orEmpty base)
      (orEmpty modified) = .ok expected ∧
    ((∀ step ∈ nodes.guardedSteps (asPath check.path) operator expected lead, step.IsProper) →
      context.counter < counterLimit → expression.meaning = some (Request.ofSteps
        (nodes.guardedSteps (asPath check.path) operator expected lead)).meaning)

theorem leads_versionedExpression (base modified : Value) (check : VersionCheck) (orphans : Bool)
    (hsound : context.IsSound) :
    Leads AliasContext.Advances (versionedExpression base modified check orphans) context
      (IsGuarded base modified check orphans (conditionLead context)) := by
  refine .bind (.ofExcept _) ?_
  rintro operator _ - ⟨rfl, hoperator⟩
  refine .bind (.ofExcept _) ?_
  rintro nodes c - ⟨rfl, hnodes⟩
  refine .get ((leads_build (leads_guarded nodes _ _ operator _ hsound)).mono ?_)
  rintro _ _ - ⟨b, rfl, rfl, expected, hexpected, hrecords⟩
  refine ⟨operator, nodes, expected, hoperator, hnodes, hexpected, fun hproper hlimit => ?_⟩
  exact (hrecords hproper _ (Builder.records_start hsound _)).meaning_finish hlimit

/-- The expression of a lock is guarded like one between documents that hold nothing but the
    version. -/
theorem leads_lockExpression (base : Value) (path : String) (new : Option Value)
    (condition : Value) (orphans : Bool) (hsound : context.IsSound) :
    Leads AliasContext.Advances (lockExpression base path new condition orphans) context
      fun expression c => ∃ step before after,
        versionStep base (asPath path) new = .ok step ∧
        versionDocument (asPath path) step.current = .ok before ∧
        versionDocument (asPath path) (some step.new) = .ok after ∧
        IsGuarded before after ⟨asPath path, condition, step.current, step.expectCurrent⟩ orphans
          (conditionLead context) expression c := by
  refine .bind (.ofExcept _) ?_
  rintro step _ - ⟨rfl, hstep⟩
  refine .bind (.ofExcept _) ?_
  rintro before _ - ⟨rfl, hbefore⟩
  refine .bind (.ofExcept _) ?_
  rintro after _ - ⟨rfl, hafter⟩
  refine (leads_versionedExpression before after _ orphans hsound).mono fun expression c _ h => ?_
  exact ⟨step, before, after, hstep, hbefore, hafter, h⟩

end Compiling

/-! ### Runs -/

/-- The contexts that are fresh or were used before, by builders and compilations of any kind;
    between two uses they may have been given another prefix. -/
inductive AliasContext.IsReachable : AliasContext → Prop where
  | fresh (lead : Value) (counter : Nat) : IsReachable ⟨lead, counter, []⟩
  | relead {context : AliasContext} (lead : Value) :
      IsReachable context → IsReachable { context with lead }
  | built {context : AliasContext} (lead : Value) (steps : List BuilderStep) :
      IsReachable context →
      IsReachable ((Builder.start context lead).runSteps steps).1.aliasing.context
  | updated {context : AliasContext} (base modified : Value) (orphans supportSets : Bool) :
      IsReachable context →
      IsReachable (stateAfter (updateExpression base modified orphans supportSets) context)
  | versioned {context : AliasContext} (base modified : Value) (check : VersionCheck)
      (orphans : Bool) : IsReachable context →
      IsReachable (stateAfter (versionedExpression base modified check orphans) context)
  | locked {context : AliasContext} (base : Value) (path : String) (new : Option Value)
      (condition : Value) (orphans : Bool) : IsReachable context →
      IsReachable (stateAfter (lockExpression base path new condition orphans) context)

theorem AliasContext.IsReachable.isSound {context : AliasContext} (h : context.IsReachable) :
    context.IsSound := by
  induction h with
  | fresh lead counter =>
    exact ⟨Int.natCast_nonneg counter, fun _ noted hnoted => by cases hnoted⟩
  | relead lead _ ih => exact ⟨ih.natural, ih.shaped⟩
  | built lead steps _ ih =>
    have hextends := Builder.extends_runSteps (b := Builder.start _ lead) steps ih
    exact hextends.sound ih
  | updated base modified orphans supportSets _ ih =>
    exact (leads_updateExpression base modified orphans supportSets ih).stateAfter.sound ih
  | versioned base modified check orphans _ ih =>
    exact (leads_versionedExpression base modified check orphans ih).stateAfter.sound ih
  | locked base path new condition orphans _ ih =>
    exact (leads_lockExpression base path new condition orphans ih).stateAfter.sound ih

/-- What any run of steps writes down means what the steps said that did not fail, in their order,
    whatever the context was used for before. -/
theorem meaning_finish_runSteps {context : AliasContext} (hcontext : context.IsReachable)
    (lead : Value) {steps : List BuilderStep} (hproper : ∀ step ∈ steps, step.IsProper)
    (hlimit : ((Builder.start context lead).runSteps steps).1.aliasing.context.counter <
      counterLimit) :
    ((Builder.start context lead).runSteps steps).1.finish.meaning =
      some (Request.ofSteps ((Builder.start context lead).runSteps steps).2).meaning :=
  ((Builder.records_start hcontext.isSound lead).runSteps hproper).meaning_finish hlimit

/-- Two names with one camel-cased form, of which the context knows both, and a step that fails
    behind the first of its two removals. -/
theorem meaning_finish_of_like_names :
    ((Builder.start ((Builder.start ⟨.text "my", 1, []⟩ .null).runSteps
        [.set [⟨"$.leftView", .int 1⟩, ⟨"$.LeftView", .int 2⟩]]).1.aliasing.context .null).runSteps
        [.set [⟨"$.LeftView[2].x", .int 3⟩], .remove [⟨"$.x", .null⟩, ⟨"$x", .null⟩],
          .set [⟨"$.leftView", .int 3⟩], .require "$[\"\"]" none "=" .null]).1.finish.meaning =
      some
        { update := [.set [([.name "LeftView", .index 2, .name "x"], .int 3),
            ([.name "leftView"], .int 3)]]
          condition := some (.absent [.name ""]) } := by
  have hproper : ∀ path ∈ ["$.LeftView[2].x", "$.x", "$x", "$.leftView", "$[\"\"]"],
      (pathKeys path).toOption ≠ some [] := by decide +kernel
  have hne : ∀ path ∈ ["$.LeftView[2].x", "$.x", "$x", "$.leftView", "$[\"\"]"],
      pathKeys path ≠ .ok [] := by
    intro path hpath hkeys
    exact hproper path hpath (congrArg Except.toOption hkeys)
  refine (meaning_finish_runSteps (.built .null _ (.fresh (.text "my") 1)) .null ?_
    (by decide +kernel)).trans (by decide +kernel)
  have hpaths : ∀ nodes : List Node, (∀ node ∈ nodes, node.path ∈
      ["$.LeftView[2].x", "$.x", "$x", "$.leftView", "$[\"\"]"]) →
      ∀ node ∈ nodes, pathKeys node.path ≠ .ok [] :=
    fun nodes hnodes node hnode => hne node.path (hnodes node hnode)
  intro step hstep
  simp only [List.mem_cons, List.not_mem_nil, or_false] at hstep
  rcases hstep with rfl | rfl | rfl | rfl
  · exact hpaths _ (by decide)
  · exact hpaths _ (by decide)
  · exact hpaths _ (by decide)
  · exact ⟨hne _ (by decide), by decide⟩

end ItemDelta
