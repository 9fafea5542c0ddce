import ItemDelta.Expression.Lock
import ItemDelta.Proofs.Alias.Registration

/-!
# What a lock fails with

Only the step to the next version refuses a current version. Paths, diffs and placeholders fail
with other faults, so whatever comes after that step does not refuse the version any more.

## Main definitions

* `Error.IsOther` — the faults that are no refusal of the current version.

## Main results

* `faultsAs_partition` — no diff refuses a version.
* `failsAs_versionedExpression` — no guarded expression does.
-/

namespace ItemDelta

/-- A fault that is no refusal of the current version. -/
def Error.IsOther (fault : Error) : Prop := ∀ version, fault ≠ .ambiguousVersion version

/-! ### Paths -/

theorem faultsAs_parseSegments (path : String) (text : List Char) :
    FaultsAs Error.IsOther (parseSegments path text) := by
  fun_induction parseSegments path text with
  | case1 => exact .ok []
  | case2 c cs segment rest hscan ih => exact .map _ ih
  | case3 => exact .error nofun
  | case4 => exact .error nofun
  | case5 => exact .error nofun

theorem faultsAs_parsePath (path : String) : FaultsAs Error.IsOther (parsePath path) := by
  rw [parsePath]
  split
  · exact .ite (faultsAs_parseSegments path _) (.error nofun)
  · exact .error nofun

theorem faultsAs_pathKeys (path : String) : FaultsAs Error.IsOther (pathKeys path) :=
  .map _ (faultsAs_parsePath path)

theorem faultsAs_ancestorPaths (path : String) : FaultsAs Error.IsOther (ancestorPaths path) :=
  .bind (faultsAs_pathKeys path) fun _ => .ok _

theorem faultsAs_getPath (document : Value) (path : String) :
    FaultsAs Error.IsOther (getPath document path) :=
  .map _ (faultsAs_pathKeys path)

/-! ### Writes -/

theorem faultsAs_place (v : Value) (key : Key) (w : Value) :
    FaultsAs Error.IsOther (v.place key w) := by
  fun_cases Value.place v key w with
  | case1 => exact .ok _
  | case2 => exact .error nofun
  | case3 => exact .error nofun
  | case4 => exact .ok _
  | case5 => exact .error nofun

theorem isOther_of_assignBelow {v : Value} {key : Key} {keys : List Key} {w : Value}
    {fault : Error} (h : (v.assignBelow key keys w).error = some fault) : fault.IsOther := by
  induction keys generalizing v key with
  | nil =>
    rw [Value.assignBelow] at h
    split at h
    · cases h
    · cases h
      exact (faultsAs_place v key w).of_eq _ ‹_›
  | cons next keys ih =>
    rw [Value.assignBelow] at h
    dsimp only at h
    split at h
    · cases h
      exact (faultsAs_place v key _).of_eq _ ‹_›
    · split at h
      · exact ih h
      · cases h
        exact (faultsAs_place v key _).of_eq _ ‹_›

theorem faultsAs_versionDocument (path : String) (version : Option Value) :
    FaultsAs Error.IsOther (versionDocument path version) := by
  cases version with
  | none => exact .ok _
  | some w =>
    rw [versionDocument, setPath]
    cases hkeys : pathKeys path with
    | error fault => exact .error ((faultsAs_pathKeys path).of_eq fault hkeys)
    | ok keys =>
      cases keys with
      | nil => exact .error nofun
      | cons key keys =>
        rw [Outcome.toExcept]
        split
        · exact .ok _
        · exact .error (isOther_of_assignBelow ‹_›)

/-! ### Diffs -/

theorem faultsAs_leafNodes (nodes : List Node) : FaultsAs Error.IsOther (leafNodes nodes) := by
  have hancestors := FaultsAs.mapM (fun node : Node => faultsAs_ancestorPaths node.path) nodes
  exact hancestors.bind fun _ => .ok _

theorem faultsAs_rootNodes (nodes : List Node) : FaultsAs Error.IsOther (rootNodes nodes) := by
  refine FaultsAs.filterM (fun node => ?_) nodes
  exact .map _ (faultsAs_ancestorPaths node.path)

theorem faultsAs_addedNodes (orphans : Bool)
    (baseNodes baseLeaves modifiedNodes modifiedLeaves : List Node) :
    FaultsAs Error.IsOther
      (addedNodes orphans baseNodes baseLeaves modifiedNodes modifiedLeaves) := by
  rw [addedNodes]
  exact .ite (.ok _) (faultsAs_rootNodes _)

theorem faultsAs_outside (nodes roots : List Node) :
    FaultsAs Error.IsOther (outside nodes roots) := by
  refine FaultsAs.filterM (fun node => ?_) nodes
  exact .ite (.ok false) (.map _ (faultsAs_ancestorPaths node.path))

theorem faultsAs_checkPaths (seen : List String) (nodes : List Node) :
    FaultsAs Error.IsOther (checkPaths seen nodes) := by
  induction nodes generalizing seen with
  | nil => exact .ok ()
  | cons node nodes ih =>
    rw [checkPaths]
    exact .bind (faultsAs_parsePath node.path) fun _ => .ite (.error nofun) (ih _)

theorem faultsAs_diff (base modified : Value) (orphans : Bool) :
    FaultsAs Error.IsOther (diff base modified orphans) := by
  refine .bind (faultsAs_leafNodes _) fun baseLeaves => ?_
  refine .bind (faultsAs_leafNodes _) fun modifiedLeaves => ?_
  refine .bind (faultsAs_addedNodes _ _ _ _ _) fun added => ?_
  refine .bind (.ite (.error nofun) (.ok ())) fun _ => ?_
  refine .bind (faultsAs_outside _ _) fun kept => ?_
  refine .bind (faultsAs_outside _ _) fun updated => ?_
  refine .bind (faultsAs_outside _ _) fun removed => ?_
  refine .bind ?_ fun _ => .ok _
  exact .bind (faultsAs_checkPaths _ _) fun _ => .bind (faultsAs_checkPaths _ _) fun _ =>
    faultsAs_checkPaths _ _

theorem faultsAs_partition (base modified : Value) (orphans : Bool) :
    FaultsAs Error.IsOther (partition base modified orphans false) :=
  .bind (faultsAs_diff base modified orphans) fun _ => .ok _

/-! ### Placeholders -/

theorem faultsAs_checkLength (name : String) : FaultsAs Error.IsOther (checkLength name) :=
  .ite (.error nofun) (.ok ())

theorem faultsAs_checkLead (lead : Value) : FaultsAs Error.IsOther (checkLead lead) :=
  .ite (.error nofun) (.ite (.error nofun) (.ok ()))

theorem failsAs_registerName (lead : Value) (name : String) :
    FailsAs Error.IsOther (AliasState.registerName lead name) where
  of_eq s fault t hrun := by
    cases AliasState.nameOutcome_of_eq hrun
    exact nofun

theorem failsAs_registerValue (parts : List (Option String)) (value : Value) :
    FailsAs Error.IsOther (AliasState.registerValue parts value) where
  of_eq s fault t hrun := by
    cases AliasState.valueOutcome_of_eq hrun
    exact nofun

theorem failsAs_nameAlias (lead : Value) (name : String) :
    FailsAs Error.IsOther (nameAlias lead name) := by
  refine .bind (.ofExcept (faultsAs_checkLength name)) fun _ => ?_
  exact .bind (.ofExcept (faultsAs_checkLead lead)) fun _ => failsAs_registerName lead name

theorem failsAs_aliasSegments (lead : Value) (parts : List String) (segments : List Segment) :
    FailsAs Error.IsOther (aliasSegments lead parts segments) := by
  induction segments generalizing parts with
  | nil => exact .pure parts
  | cons segment segments ih =>
    rw [aliasSegments]
    cases segment.key with
    | index position => exact ih _
    | name name => exact .bind (failsAs_nameAlias lead name) fun placeholder => ih _

theorem failsAs_aliasPath (lead : Value) (path : String) :
    FailsAs Error.IsOther (aliasPath lead path) := by
  refine .get fun s => .bind (.ofExcept (faultsAs_parsePath path)) fun segments => ?_
  exact .bind (failsAs_aliasSegments _ _ _) fun parts => .pure _

theorem failsAs_aliasNode (lead : Value) (node : Node) :
    FailsAs Error.IsOther (aliasNode lead node) := by
  refine .get fun s => .bind (.ofExcept (faultsAs_parsePath node.path)) fun segments => ?_
  refine .bind (failsAs_aliasSegments _ _ _) fun parts => ?_
  refine .bind (.ofExcept (.ite (.error nofun) (.ok _))) fun first => ?_
  exact .bind (failsAs_registerValue _ node.value) fun placeholder => .pure _

/-! ### Builders -/

namespace Builder

theorem failsAs_registering {α : Type} {action : Aliasing α}
    (h : FailsAs Error.IsOther action) : FailsAs Error.IsOther (registering action) where
  of_eq b fault c hrun := by
    rw [registering] at hrun
    cases haction : action b.aliasing with
    | ok result t =>
      rw [haction] at hrun
      cases hrun
    | error other t =>
      rw [haction] at hrun
      cases hrun
      exact h.of_eq _ _ _ haction

theorem failsAs_aliasedPath (path : String) (lead : Value) :
    FailsAs Error.IsOther (aliasedPath path lead) :=
  .get fun _ => failsAs_registering (failsAs_aliasPath _ path)

theorem failsAs_aliased (node : Node) (lead : Value) :
    FailsAs Error.IsOther (aliased node lead) :=
  .get fun _ => .bind (failsAs_registering (failsAs_aliasNode _ node)) fun _ => .pure _

theorem failsAs_modify {α : Type} {action : Building α} (change : α → Builder → Builder)
    (h : FailsAs Error.IsOther action) :
    FailsAs Error.IsOther (action >>= fun result => modify (change result)) :=
  .bind h fun _ => .modifyGet _

theorem failsAs_addPartition (nodes : Partition) :
    FailsAs Error.IsOther (addPartition nodes) := by
  have haliased := fun nodes : List Node =>
    FailsAs.mapM (fun node => failsAs_aliased node .null) nodes
  have hpaths := fun nodes : List Node =>
    FailsAs.mapM (fun node : Node => failsAs_aliasedPath node.path .null) nodes
  refine .bind (failsAs_modify _ (haliased nodes.set)) fun _ => ?_
  exact .bind (failsAs_modify _ (hpaths nodes.remove)) fun _ =>
    failsAs_modify _ (haliased nodes.delete)

theorem failsAs_require (path : String) (expected : Option Value) (operator : String)
    (lead : Value) : FailsAs Error.IsOther (require path expected operator lead) := by
  cases expected with
  | none => exact failsAs_modify _ (failsAs_aliasedPath path lead)
  | some value => exact failsAs_modify _ (failsAs_aliased ⟨path, value⟩ lead)

end Builder

theorem failsAs_build {lead : Value} {steps : Building Unit} (h : FailsAs Error.IsOther steps) :
    FailsAs Error.IsOther (build lead steps) where
  of_eq context fault c hrun := by
    rw [build] at hrun
    cases hsteps : steps (Builder.start context lead) with
    | ok result b =>
      rw [hsteps] at hrun
      cases hrun
    | error other b =>
      rw [hsteps] at hrun
      cases hrun
      exact h.of_eq _ _ _ hsteps

/-! ### Guarded expressions -/

theorem faultsAs_comparisonOperator (condition : Value) :
    FaultsAs Error.IsOther (comparisonOperator condition) := by
  unfold comparisonOperator
  split
  · exact .ite (.ok _) (.error nofun)
  · exact .ite (.error nofun) (.error nofun)

theorem faultsAs_expected (check : VersionCheck) (base modified : Value) :
    FaultsAs Error.IsOther (check.expected base modified) := by
  have hmodified := faultsAs_getPath modified check.path
  unfold VersionCheck.expected
  cases check.current with
  | some version => exact .ite (.ok _) (.bindOption hmodified (.error nofun) fun _ => .ok _)
  | none =>
    refine .bindOption (faultsAs_getPath base check.path) (.ok _) fun version => ?_
    exact .ite (.ok _) (.bindOption hmodified (.error nofun) fun _ => .ok _)

/-- A guarded expression refuses no current version. -/
theorem failsAs_versionedExpression (base modified : Value) (check : VersionCheck)
    (orphans : Bool) : FailsAs Error.IsOther (versionedExpression base modified check orphans) := by
  refine .bind (.ofExcept (faultsAs_comparisonOperator _)) fun operator => ?_
  refine .bind (.ofExcept (faultsAs_partition _ _ _)) fun nodes => .get fun context => ?_
  refine failsAs_build (.bind (Builder.failsAs_addPartition nodes) fun _ => ?_)
  exact .bind (.ofExcept (faultsAs_expected _ _ _)) fun expected => Builder.failsAs_require _ _ _ _

end ItemDelta
