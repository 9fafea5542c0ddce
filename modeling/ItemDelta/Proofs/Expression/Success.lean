import ItemDelta.Proofs.Alias.Success
import ItemDelta.Proofs.Expression.Guard

/-!
# Expressions that are compiled

A step of a builder fails for the first name on its paths that is too long, or where its context
runs out of numbers, and succeeds otherwise. So an expression is compiled once the diff is there,
and the counter of a new context leaves room for suffixes at the end, whatever the placeholders are.

## Main definitions

* `Node.names`, `BuilderStep.names` — the names on the paths of a node and of a step.
* `BuilderStep.cost` — how many registrations a step makes, at most.
* `BuilderStep.IsReadable`, `BuilderStep.IsAliasable` — the paths of a step can be read, and have no
  name that is too long.
* `Builder.Affords` — the context of a builder affords so many registrations more.

## Main results

* `BuilderStep.settles_run`, `settles_addPartition` — one step, and the clauses of a regrouped diff.
* `exists_meaning_of_versionedExpression` — a whole expression, and what it says.
-/

namespace ItemDelta

/-- A path that can be read, and whose names are not too long. -/
def IsAliasable (path : String) : Prop :=
  ∃ keys, pathKeys path = .ok keys ∧ ∀ key ∈ keys, key.fitsStore = true

/-- The names on the way to a node, from the root down. -/
def Node.names (node : Node) : List String := namesOf (keysOf node.path)

/-- How many registrations a path and a value at its end need, at most. -/
def pathCost (path : String) : Nat := (keysOf path).length + 1

theorem Node.names_along {keys : List Key} (h : ∀ key ∈ keys, key.isLegible = true) (v : Value) :
    (Node.along keys v).names = namesOf keys := by
  rw [Node.names, Node.along_path, Builder.keysOf_eq (pathKeys_pathText h)]

theorem pathCost_pathText {keys : List Key} (h : ∀ key ∈ keys, key.isLegible = true) :
    pathCost (pathText keys) = keys.length + 1 := by
  rw [pathCost, Builder.keysOf_eq (pathKeys_pathText h)]

namespace BuilderStep

/-- The names on the paths of a step. -/
def names : BuilderStep → List String
  | .set nodes | .remove nodes | .delete nodes => nodes.flatMap Node.names
  | .require path .. => namesOf (keysOf path)

/-- How many registrations a step makes, at most. -/
def cost : BuilderStep → Nat
  | .set nodes | .remove nodes | .delete nodes => (nodes.map fun node => pathCost node.path).sum
  | .require path .. => pathCost path

/-- All paths of a step can be read, and names can be noted under its prefix. -/
def IsReadable : BuilderStep → Prop
  | .set nodes | .remove nodes | .delete nodes =>
    ∀ node ∈ nodes, ∃ keys, pathKeys node.path = .ok keys
  | .require path _ _ lead => (∃ keys, pathKeys path = .ok keys) ∧ lead.IsLead

/-- All paths of a step are aliasable, and names can be noted under its prefix. -/
def IsAliasable : BuilderStep → Prop
  | .set nodes | .remove nodes | .delete nodes => ∀ node ∈ nodes, ItemDelta.IsAliasable node.path
  | .require path _ _ lead => ItemDelta.IsAliasable path ∧ lead.IsLead

end BuilderStep

theorem IsAliasable.refusal?_eq_none {path : String} (h : IsAliasable path) :
    refusal? (namesOf (keysOf path)) = none := by
  obtain ⟨keys, hkeys, hfits⟩ := h
  rw [Builder.keysOf_eq hkeys]
  exact ItemDelta.refusal?_eq_none hfits

/-- A step with aliasable paths is not refused. -/
theorem BuilderStep.IsAliasable.isReadable {step : BuilderStep} (h : step.IsAliasable) :
    step.IsReadable ∧ refusal? step.names = none := by
  have hnodes : ∀ nodes : List Node, (∀ node ∈ nodes, ItemDelta.IsAliasable node.path) →
      (∀ node ∈ nodes, ∃ keys, pathKeys node.path = .ok keys) ∧
        refusal? (nodes.flatMap Node.names) = none := by
    intro nodes h
    refine ⟨fun node hnode => (h node hnode).imp fun _ => And.left, ?_⟩
    rw [refusal?_flatMap, List.findSome?_eq_none_iff]
    exact fun node hnode => (h node hnode).refusal?_eq_none
  cases step with
  | set nodes | remove nodes | delete nodes => exact hnodes nodes h
  | require path expected operator lead =>
    exact ⟨⟨h.1.imp fun _ => And.left, h.2⟩, h.1.refusal?_eq_none⟩

namespace Builder

/-- A builder under a prefix whose context affords so many registrations more. -/
structure Affords (lead : Value) (affords : Nat → AliasState → Prop) (left : Nat)
    (builder : Builder) : Prop where
  lead : builder.lead = lead
  aliasing : affords left builder.aliasing

/-- A registration of a builder gives up. -/
def GivesUp (givesUp : Error → AliasState → Prop) (fault : Error) (builder : Builder) : Prop :=
  givesUp fault builder.aliasing

end Builder

section Steps

variable {lead other : Value} {context : AliasContext} {affords : Nat → AliasState → Prop}
  {givesUp : Error → AliasState → Prop} {b : Builder} {left : Nat}

namespace Builder

theorem settles_registering {α : Type} {action : Aliasing α} {fault : Option Error}
    (hlead : b.lead = lead) (h : Settles givesUp action b.aliasing fault (affords left)) :
    Settles (GivesUp givesUp) (registering action) b fault (Affords lead affords left) := by
  cases haction : action b.aliasing with
  | ok result t =>
    obtain ⟨rfl, ht⟩ := h.ok result t haction
    have hrun : registering action b = .ok result { b with aliasing := t } := by
      rw [registering, haction]
    exact .of_ok hrun ⟨hlead, ht⟩
  | error refusal t =>
    have hrun : registering action b = .error refusal { b with aliasing := t } := by
      rw [registering, haction]
    exact .of_error hrun (h.error refusal t haction)

variable (hsustains : AliasState.Sustains context.lead affords givesUp)
  (hlead : checkLead (effectiveLead (leadOr other lead) context) = .ok ())

include hsustains hlead

theorem settles_aliasedPath {path : String} (hpath : ∃ keys, pathKeys path = .ok keys)
    (h : b.Affords lead affords (pathCost path + left)) :
    Settles (GivesUp givesUp) (aliasedPath path other) b (refusal? (namesOf (keysOf path)))
      (Affords lead affords left) := by
  obtain ⟨keys, hkeys⟩ := hpath
  obtain ⟨hown, haliasing⟩ := h
  rw [pathCost, keysOf_eq hkeys] at haliasing
  rw [keysOf_eq hkeys]
  refine .get (settles_registering hown ?_)
  rw [hown]
  exact settles_aliasPath hsustains hlead hkeys (hsustains.mono (by omega) haliasing)

theorem settles_aliased (node : Node) (hpath : ∃ keys, pathKeys node.path = .ok keys)
    (h : b.Affords lead affords (pathCost node.path + left)) :
    Settles (GivesUp givesUp) (aliased node other) b (refusal? node.names)
      (Affords lead affords left) := by
  obtain ⟨keys, hkeys⟩ := hpath
  obtain ⟨hown, haliasing⟩ := h
  rw [pathCost, keysOf_eq hkeys] at haliasing
  rw [Node.names, keysOf_eq hkeys]
  refine .get ((settles_registering hown ?_).bind_none fun texts c hc => .pure _ hc)
  rw [hown]
  exact settles_aliasNode hsustains hlead hkeys haliasing

omit hsustains hlead

/-- Some registrations, and then a change that writes their results down. -/
theorem settles_modify {α : Type} {action : Building α} {fault : Option Error}
    (change : α → Builder → Builder)
    (hkept : ∀ result c, (change result c).lead = c.lead ∧
      (change result c).aliasing = c.aliasing)
    (h : Settles (GivesUp givesUp) action b fault (Affords lead affords left)) :
    Settles (GivesUp givesUp) (action >>= fun result => modify (change result)) b fault
      (Affords lead affords left) := by
  refine h.bind_none fun result c hc => .modifyGet ?_
  obtain ⟨hlead, haliasing⟩ := hkept result c
  exact ⟨hlead.trans hc.lead, haliasing ▸ hc.aliasing⟩

/-- The same for nodes in a row. -/
theorem settles_mapM {α : Type} {action : Node → Building α} {nodes : List Node}
    (change : List α → Builder → Builder)
    (hkept : ∀ results c, (change results c).lead = c.lead ∧
      (change results c).aliasing = c.aliasing)
    (haction : ∀ node ∈ nodes, ∀ left (c : Builder),
      c.Affords lead affords (pathCost node.path + left) →
      Settles (GivesUp givesUp) (action node) c (refusal? node.names) (Affords lead affords left))
    (hb : b.Affords lead affords ((nodes.map fun node => pathCost node.path).sum + left)) :
    Settles (GivesUp givesUp) (nodes.mapM action >>= fun results => modify (change results)) b
      (refusal? (nodes.flatMap Node.names)) (Affords lead affords left) := by
  rw [refusal?_flatMap]
  exact settles_modify change hkept (.mapM haction hb)

end Builder

/-- A step fails for the first name on its paths that is too long, and succeeds if there is none,
    as long as its registrations can be afforded. -/
theorem BuilderStep.settles_run (hsustains : AliasState.Sustains context.lead affords givesUp)
    (hlead : checkLead (effectiveLead lead context) = .ok ()) (step : BuilderStep)
    (hstep : step.IsReadable) (h : b.Affords lead affords (step.cost + left)) :
    Settles (Builder.GivesUp givesUp) step.run b (refusal? step.names)
      (Builder.Affords lead affords left) := by
  have hown : checkLead (effectiveLead (leadOr .null lead) context) = .ok () := hlead
  cases step with
  | set nodes | delete nodes =>
    refine Builder.settles_mapM _ (fun _ _ => ⟨rfl, rfl⟩) (fun node hnode k c hc => ?_) h
    exact Builder.settles_aliased hsustains hown node (hstep node hnode) hc
  | remove nodes =>
    refine Builder.settles_mapM _ (fun _ _ => ⟨rfl, rfl⟩) (fun node hnode k c hc => ?_) h
    exact Builder.settles_aliasedPath hsustains hown (hstep node hnode) hc
  | require path expected operator other =>
    obtain ⟨hpath, hother⟩ := hstep
    have hother : checkLead (effectiveLead (leadOr other lead) context) = .ok () := by
      rw [leadOr_of_ne_null hother.ne_null]
      exact hother.checkLead_effectiveLead context
    cases expected with
    | none =>
      exact Builder.settles_modify _ (fun _ _ => ⟨rfl, rfl⟩)
        (Builder.settles_aliasedPath hsustains hother hpath h)
    | some value =>
      exact Builder.settles_modify _ (fun _ _ => ⟨rfl, rfl⟩)
        (Builder.settles_aliased hsustains hother ⟨path, value⟩ hpath h)

/-- The names on the paths of a regrouped diff, in the order of its clauses. -/
def Partition.names (nodes : Partition) : List String :=
  (nodes.set ++ nodes.remove ++ nodes.delete).flatMap Node.names

theorem Partition.names_eq (nodes : Partition) :
    nodes.names = nodes.steps.flatMap BuilderStep.names := by
  simp [names, steps, BuilderStep.names, List.append_assoc]

/-- How many registrations a regrouped diff makes, at most. -/
def Partition.cost (nodes : Partition) : Nat := (nodes.steps.map BuilderStep.cost).sum

theorem Partition.names_singleton {keys : List Key} (h : ∀ key ∈ keys, key.isLegible = true)
    (v : Value) : (⟨[Node.along keys v], [], []⟩ : Partition).names = namesOf keys := by
  rw [names, List.append_nil, List.append_nil, List.flatMap_singleton, Node.names_along h]

theorem Partition.cost_singleton {keys : List Key} (h : ∀ key ∈ keys, key.isLegible = true)
    (v : Value) : (⟨[Node.along keys v], [], []⟩ : Partition).cost = keys.length + 1 := by
  simp [cost, steps, BuilderStep.cost, pathCost_pathText h]

/-- A regrouped diff is refused for its first name that is too long. -/
theorem settles_addPartition (hsustains : AliasState.Sustains context.lead affords givesUp)
    (hlead : checkLead (effectiveLead lead context) = .ok ()) {nodes : Partition}
    (hnodes : ∀ step ∈ nodes.steps, step.IsReadable)
    (h : b.Affords lead affords (nodes.cost + left)) :
    Settles (Builder.GivesUp givesUp) (Builder.addPartition nodes) b (refusal? nodes.names)
      (Builder.Affords lead affords left) := by
  have hset := hnodes (.set nodes.set) (by simp [Partition.steps])
  have hremove := hnodes (.remove nodes.remove) (by simp [Partition.steps])
  have hdelete := hnodes (.delete nodes.delete) (by simp [Partition.steps])
  have hcost : nodes.cost + left =
      (BuilderStep.set nodes.set).cost + ((BuilderStep.remove nodes.remove).cost +
        ((BuilderStep.delete nodes.delete).cost + left)) := by
    simp [Partition.cost, Partition.steps, Nat.add_assoc]
  have hnames : refusal? nodes.names = (refusal? (BuilderStep.set nodes.set).names).or
      ((refusal? (BuilderStep.remove nodes.remove).names).or
        (refusal? (BuilderStep.delete nodes.delete).names)) := by
    rw [Partition.names, List.flatMap_append, List.flatMap_append, refusal?_append,
      refusal?_append, Option.or_assoc]
    rfl
  rw [hcost] at h
  rw [hnames]
  refine (BuilderStep.settles_run hsustains hlead _ hset h).bind fun _ c hc => ?_
  refine (BuilderStep.settles_run hsustains hlead _ hremove hc).bind fun _ d hd => ?_
  exact BuilderStep.settles_run hsustains hlead _ hdelete hd

end Steps

/-- A versioned expression is compiled if the diff is there, its paths are aliasable, and so are the
    path and the prefix of the version, and if all numbers that can be needed can be written. -/
theorem exists_versionedExpression_eq_ok {base modified : Value} {check : VersionCheck}
    {orphans : Bool} {operator : String} {nodes : Partition} {expected : Option Value}
    {context : AliasContext} {total : Nat}
    (hoperator : comparisonOperator check.condition = .ok operator)
    (hnodes : partition (orEmpty base) (orEmpty modified) orphans false = .ok nodes)
    (hexpected : VersionCheck.expected { check with path := asPath check.path } (orEmpty base)
      (orEmpty modified) = .ok expected)
    (hsteps : ∀ step ∈ nodes.guardedSteps (asPath check.path) operator expected
      (conditionLead context), step.IsAliasable)
    (hcost : ((nodes.guardedSteps (asPath check.path) operator expected
      (conditionLead context)).map BuilderStep.cost).sum = total)
    (hwritten : ∀ k ≤ numbersFor total, isLongInteger (context.counter + (k : Nat)) = false) :
    ∃ b : Builder, versionedExpression base modified check orphans context =
        .ok b.finish b.aliasing.context ∧
      b.aliasing.Affords ⟨context.lead, context.counter, total⟩ 0 := by
  have hsustains := AliasState.sustains_affords ⟨context.lead, context.counter, total⟩
  have hlead := (isLead_text "").checkLead_effectiveLead context
  let guard := BuilderStep.require (asPath check.path) expected operator (conditionLead context)
  have hsum : nodes.cost + (guard.cost + 0) = total := by
    simpa [Partition.cost, Partition.guardedSteps] using hcost
  have hstart : (Builder.start context (.text "")).Affords (.text "")
      (AliasState.Affords ⟨context.lead, context.counter, total⟩) (nodes.cost + (guard.cost + 0)) :=
    ⟨rfl, (AliasState.affords_start hwritten).mono (Nat.le_of_eq hsum)⟩
  have hadded : ∀ step ∈ nodes.steps, step.IsAliasable := fun step hstep =>
    hsteps step (List.mem_append_left _ hstep)
  have hguard : guard.IsAliasable :=
    hsteps guard (List.mem_append_right _ (List.mem_singleton_self _))
  have hnames : refusal? nodes.names = none := by
    rw [nodes.names_eq, refusal?_flatMap, List.findSome?_eq_none_iff]
    exact fun step hstep => (hadded step hstep).isReadable.2
  have hclauses := settles_addPartition hsustains hlead
    (fun step hstep => (hadded step hstep).isReadable.1) hstart
  rw [hnames] at hclauses
  -- No registration gives up, and no name is too long, so nothing is left to fail.
  have hguarded : Settles (fun _ _ => False) (do
      Builder.addPartition nodes
      let expected ← ofExcept (VersionCheck.expected { check with path := asPath check.path }
        (orEmpty base) (orEmpty modified))
      Builder.require (asPath check.path) expected operator (conditionLead context))
      (Builder.start context (.text "")) none (Builder.Affords (.text "")
        (AliasState.Affords ⟨context.lead, context.counter, total⟩) 0) := by
    refine hclauses.bind_none fun _ c hc => .ofExcept hexpected ?_
    have hrun := guard.settles_run hsustains hlead hguard.isReadable.1 hc
    rwa [hguard.isReadable.2] at hrun
  obtain ⟨_, b, hrun, hb⟩ := hguarded.exists_ok
  refine ⟨b, ?_, hb.aliasing⟩
  rw [versionedExpression_eq_build hoperator hnodes, build, hrun]

/-- In a new context it says what the nodes of the diff say, and demands what is expected of the
    version. -/
theorem exists_meaning_of_versionedExpression {base modified lead : Value} {check : VersionCheck}
    {orphans : Bool} {operator : String} {nodes : Partition} {expected : Option Value}
    (hpath : pathKeys (asPath check.path) ≠ .ok [])
    (hoperator : comparisonOperator check.condition = .ok operator)
    (hnodes : partition (orEmpty base) (orEmpty modified) orphans false = .ok nodes)
    (hexpected : VersionCheck.expected { check with path := asPath check.path } (orEmpty base)
      (orEmpty modified) = .ok expected)
    (hsteps : ∀ step ∈ nodes.guardedSteps (asPath check.path) operator expected
      (conditionLead ⟨lead, 1, []⟩), step.IsAliasable)
    (hcost : ((nodes.guardedSteps (asPath check.path) operator expected
      (conditionLead ⟨lead, 1, []⟩)).map BuilderStep.cost).sum ≤ Nat.pow 2 65) :
    ∃ expression context,
      versionedExpression base modified check orphans ⟨lead, 1, []⟩ = .ok expression context ∧
      expression.meaning = some ⟨(Request.ofSteps nodes.steps).meaning.update,
        some (demandOf (asPath check.path) operator expected)⟩ := by
  obtain ⟨b, hrun, hb⟩ := exists_versionedExpression_eq_ok hoperator hnodes hexpected hsteps rfl
    (AliasState.written_of_le hcost)
  refine ⟨b.finish, b.aliasing.context, hrun, ?_⟩
  have hguarded := ((leads_versionedExpression base modified check orphans
    (AliasContext.IsReachable.fresh lead 1).isSound).ok _ _ hrun).2
  obtain ⟨_, _, _, hoperator', hnodes', hexpected', hmeaning⟩ :=
    hguarded.exists_meaning_eq hpath (hb.lt_counterLimit rfl hcost)
  cases hoperator.symm.trans hoperator'
  cases hnodes.symm.trans hnodes'
  cases hexpected.symm.trans hexpected'
  exact hmeaning

end ItemDelta
