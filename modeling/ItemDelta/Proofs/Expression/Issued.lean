import ItemDelta.Proofs.Alias.Kept
import ItemDelta.Proofs.Expression.Steps

/-!
# The placeholders that a builder issues

A builder goes through the paths of a step one after the other, and up to the first one that fails
it issues placeholders for their names. All of them are kept, so one name has one placeholder under
one prefix, whatever steps there are and whichever of them fail; and all that is written down is
written with them.

## Main definitions

* `Builder.issued` — the placeholders that are issued in a run of steps, in their order.
* `Builder.paths` — the aliased paths that a builder has written down.
* `IsWritten` — an aliased path is written with some of the placeholders that were issued.
* `Builder.Accounts` — what a builder has issued is kept, and all that is written is written with
  it.

## Main results

* `Builder.Accounts.step`, `Builder.accounts_runSteps` — one step, and a run of steps.
* `Builder.one_alias_per_name` — one placeholder for each name under a prefix, and one name for
  each placeholder.
-/

namespace ItemDelta

open Builder

/-! ### What is issued -/

namespace Builder

/-- The placeholders that are issued for the names on the paths of nodes, one node after the other
    up to the first one that fails. -/
def issuedAlong {α : Type} (lead : Value) (make : Node → Building α) (b : Builder) :
    List Node → List NotedAlias
  | [] => []
  | node :: nodes =>
    (b.aliasing.issueAlong (leadOr lead b.lead) node.path).1 ++
      match make node b with
      | .ok _ next => issuedAlong lead make next nodes
      | .error _ _ => []

end Builder

/-- The placeholders that are issued in one step. -/
def BuilderStep.issued (b : Builder) : BuilderStep → List NotedAlias
  | .set nodes | .delete nodes => b.issuedAlong .null (aliased · .null) nodes
  | .remove nodes => b.issuedAlong .null (fun node => aliasedPath node.path .null) nodes
  | .require path _ _ lead => (b.aliasing.issueAlong (leadOr lead b.lead) path).1

namespace Builder

/-- The placeholders that are issued in a run of steps. -/
def issued (b : Builder) : List BuilderStep → List NotedAlias
  | [] => []
  | step :: steps => step.issued b ++ issued (stateAfter step.run b) steps

end Builder

/-- The aliased path of a condition. -/
def Condition.path : Condition → String
  | .absent path => path
  | .compares path _ _ => path

/-- The aliased paths that a builder has written down. -/
def Builder.paths (b : Builder) : List String :=
  b.clauses.set.map AliasedNode.path ++ b.clauses.remove ++
    b.clauses.delete.map AliasedNode.path ++ (b.condition.map Condition.path).toList

/-- A text is the path along some keys, written with placeholders that were issued for the names
    among them. -/
def IsWritten (issued : List NotedAlias) (text : String) : Prop :=
  ∃ keys written, written ⊆ issued ∧ written.map NotedAlias.name = namesOf keys ∧
    text = aliasedText keys (written.map NotedAlias.placeholder)

theorem IsWritten.mono {issued others : List NotedAlias} {text : String}
    (h : IsWritten issued text) (hsubset : issued ⊆ others) : IsWritten others text := by
  obtain ⟨keys, written, hwritten, hnames, htext⟩ := h
  exact ⟨keys, written, List.Subset.trans hwritten hsubset, hnames, htext⟩

/-- What has been issued is kept, and all that is written down is written with it. -/
structure Builder.Accounts (b : Builder) (issued : List NotedAlias) : Prop where
  kept : ∀ noted ∈ issued, b.aliasing.Keeps noted
  written : ∀ text ∈ b.paths, IsWritten issued text

/-! ### Aliased paths -/

/-- An action on a node registers the names on its path, and then no more than values. If it
    succeeds, it has written the path with what was issued. -/
structure IsAliasing {α : Type} (lead : Value) (make : Node → Building α) (path : α → String) :
    Prop where
  after : ∀ node b, ∃ s, stateAfter (make node) b = { b with aliasing := s } ∧
    (b.aliasing.issueAlong (leadOr lead b.lead) node.path).2.Registrations s
  written : ∀ node b result c, make node b = .ok result c →
    IsWritten (b.aliasing.issueAlong (leadOr lead b.lead) node.path).1 (path result)

theorem isAliasing_aliasedPath (lead : Value) :
    IsAliasing lead (fun node => aliasedPath node.path lead) id where
  after node b := ⟨_, stateAfter_aliasedPath node.path lead b, .refl _⟩
  written node b text c hrun := by
    rw [aliasedPath_eq] at hrun
    obtain ⟨haliased, -⟩ := eq_ok_of_registering hrun
    obtain ⟨keys, -, hnames, htext⟩ := exists_keys_of_aliasPath haliased
    exact ⟨keys, _, List.Subset.refl _, hnames, htext⟩

theorem isAliasing_aliased (lead : Value) :
    IsAliasing lead (aliased · lead) AliasedNode.path where
  after node b := ⟨_, stateAfter_aliased node lead b, registrations_aliasNode node⟩
  written node b item c hrun := by
    rw [aliased_eq] at hrun
    obtain ⟨texts, d, haliased, hitem⟩ := exists_ok_of_bind hrun
    cases hitem
    obtain ⟨haliased, -⟩ := eq_ok_of_registering haliased
    obtain ⟨keys, -, -, hnames, htext, -⟩ := exists_keys_of_aliasNode haliased
    exact ⟨keys, _, List.Subset.refl _, hnames, htext⟩

section Accounting

variable {α : Type} {lead : Value} {make : Node → Building α} {path : α → String} {b : Builder}
  {issued : List NotedAlias}

/-- What is issued along a path is kept too. -/
theorem IsAliasing.accounts (hmake : IsAliasing lead make path) (h : b.Accounts issued)
    (node : Node) :
    (stateAfter (make node) b).Accounts
      (issued ++ (b.aliasing.issueAlong (leadOr lead b.lead) node.path).1) := by
  obtain ⟨s, hafter, hregistrations⟩ := hmake.after node b
  rw [hafter]
  constructor
  · intro noted hnoted
    rcases List.mem_append.mp hnoted with hnoted | hnoted
    · exact (h.kept noted hnoted).registrations
        ((b.aliasing.registrations_issueAlong _ node.path).trans hregistrations)
    · exact (AliasState.keeps_of_mem_issueAlong hnoted).registrations hregistrations
  · exact fun text htext => (h.written text htext).mono (List.subset_append_left _ _)

/-- So is what is issued along several paths, up to one that fails. -/
theorem IsAliasing.accounts_mapM (hmake : IsAliasing lead make path) (h : b.Accounts issued)
    (nodes : List Node) :
    (stateAfter (nodes.mapM make) b).Accounts (issued ++ b.issuedAlong lead make nodes) ∧
      ∀ results c, nodes.mapM make b = .ok results c →
        ∀ result ∈ results, IsWritten (b.issuedAlong lead make nodes) (path result) := by
  -- The builder and what it has issued so far change from node to node.
  induction nodes generalizing b issued with
  | nil =>
    rw [Builder.issuedAlong, List.append_nil]
    refine ⟨h, fun results c hrun result hresult => ?_⟩
    cases hrun
    cases hresult
  | cons node nodes ih =>
    have hfirst := hmake.accounts h node
    rw [List.mapM_cons, Builder.issuedAlong, ← List.append_assoc, stateAfter_bind]
    rw [stateAfter] at hfirst
    cases hrun : make node b with
    | error fault c =>
      rw [hrun] at hfirst
      rw [List.append_nil]
      refine ⟨hfirst, fun results d hresults => ?_⟩
      obtain ⟨_, _, hok, -⟩ := exists_ok_of_bind hresults
      cases hrun.symm.trans hok
    | ok result c =>
      rw [hrun] at hfirst
      obtain ⟨haccounts, hwritten⟩ := ih hfirst
      dsimp only
      rw [stateAfter_bind_pure]
      refine ⟨haccounts, fun results d hresults other hother => ?_⟩
      obtain ⟨first, c', hok, hrest⟩ := exists_ok_of_bind hresults
      cases hrun.symm.trans hok
      obtain ⟨rest, d', hmapM, hpure⟩ := exists_ok_of_bind hrest
      cases hpure
      rcases List.mem_cons.mp hother with rfl | hother
      · exact (hmake.written node b _ _ hrun).mono (List.subset_append_left _ _)
      · exact (hwritten rest d hmapM other hother).mono (List.subset_append_right _ _)

/-! ### Steps -/

/-- What is written down with the results of an action is written with what was issued, if the
    results are. -/
theorem accounts_modify {β : Type} {action : Building β} (change : β → Builder → Builder)
    (texts : β → List String) (h : (stateAfter action b).Accounts issued)
    (haliasing : ∀ result c, (change result c).aliasing = c.aliasing)
    (hpaths : ∀ result c, (change result c).paths ⊆ c.paths ++ texts result)
    (hwritten : ∀ result c, action b = .ok result c → ∀ text ∈ texts result,
      IsWritten issued text) :
    (stateAfter (action >>= fun result => modify (change result)) b).Accounts issued := by
  rw [stateAfter_bind]
  rw [stateAfter] at h
  cases hrun : action b with
  | error fault c =>
    rw [hrun] at h
    exact h
  | ok result c =>
    rw [hrun] at h
    change (change result c).Accounts issued
    constructor
    · intro noted hnoted
      rw [haliasing]
      exact h.kept noted hnoted
    · intro text htext
      rcases List.mem_append.mp (hpaths result c htext) with htext | htext
      · exact h.written text htext
      · exact hwritten result c hrun text htext

/-- Only the condition of a builder is replaced. -/
theorem paths_require_subset (condition : Condition) :
    ({ b with condition := some condition } : Builder).paths ⊆ b.paths ++ [condition.path] := by
  intro text htext
  simp only [Builder.paths, List.mem_append, Option.map_some, Option.toList_some] at htext ⊢
  tauto

/-- All that one step issues is kept, and all that it writes down is written with it. -/
theorem Builder.Accounts.step (h : b.Accounts issued) (step : BuilderStep) :
    (stateAfter step.run b).Accounts (issued ++ step.issued b) := by
  have hright := List.subset_append_right issued (step.issued b)
  cases step with
  | set nodes =>
    obtain ⟨haccounts, hwritten⟩ := (isAliasing_aliased .null).accounts_mapM h nodes
    refine accounts_modify _ (List.map AliasedNode.path) haccounts (fun _ _ => rfl)
      (fun items c text htext => ?_) fun items c hrun => ?_
    · simp only [Builder.paths, List.map_append, List.mem_append] at htext ⊢
      tauto
    · exact List.forall_mem_map.mpr fun item hitem =>
        (hwritten items c hrun item hitem).mono hright
  | remove nodes =>
    obtain ⟨haccounts, hwritten⟩ := (isAliasing_aliasedPath .null).accounts_mapM h nodes
    refine accounts_modify _ id haccounts (fun _ _ => rfl)
      (fun items c text htext => ?_) fun items c hrun text htext => ?_
    · simp only [Builder.paths, List.mem_append, id] at htext ⊢
      tauto
    · exact (hwritten items c hrun text htext).mono hright
  | delete nodes =>
    obtain ⟨haccounts, hwritten⟩ := (isAliasing_aliased .null).accounts_mapM h nodes
    refine accounts_modify _ (List.map AliasedNode.path) haccounts (fun _ _ => rfl)
      (fun items c text htext => ?_) fun items c hrun => ?_
    · simp only [Builder.paths, List.map_append, List.mem_append] at htext ⊢
      tauto
    · exact List.forall_mem_map.mpr fun item hitem =>
        (hwritten items c hrun item hitem).mono hright
  | require path expected operator lead =>
    cases expected with
    | none =>
      have haliasing := isAliasing_aliasedPath lead
      refine accounts_modify
        (fun item builder => { builder with condition := some (.absent item) }) (fun item => [item])
        (haliasing.accounts h ⟨path, .null⟩) (fun _ _ => rfl)
        (fun item c => paths_require_subset (.absent item)) fun item c hrun => ?_
      exact List.forall_mem_singleton.mpr
        ((haliasing.written ⟨path, .null⟩ b item c hrun).mono hright)
    | some value =>
      have haliasing := isAliasing_aliased lead
      refine accounts_modify
        (fun (item : AliasedNode) (builder : Builder) =>
          { builder with condition := some (.compares item.path operator item.value) })
        (fun item => [item.path]) (haliasing.accounts h ⟨path, value⟩) (fun _ _ => rfl)
        (fun item c => paths_require_subset (.compares item.path operator item.value))
        fun item c hrun => ?_
      exact List.forall_mem_singleton.mpr
        ((haliasing.written ⟨path, value⟩ b item c hrun).mono hright)

/-- So is all that a run of steps issues, whichever of them fail. -/
theorem Builder.accounts_runSteps (h : b.Accounts issued) (steps : List BuilderStep) :
    (b.runSteps steps).1.Accounts (issued ++ b.issued steps) := by
  induction steps generalizing b issued with
  | nil =>
    rw [Builder.issued, List.append_nil]
    exact h
  | cons step steps ih =>
    rw [runSteps_cons, Builder.issued, ← List.append_assoc]
    exact ih (h.step step)

end Accounting

theorem Builder.accounts_start (context : AliasContext) (lead : Value) :
    (Builder.start context lead).Accounts [] where
  kept noted hnoted := by cases hnoted
  written text htext := by cases htext

/-- In a run of steps of a builder, on any context and whichever of them fail, a name has one
    placeholder under one prefix, and a placeholder stands for one name under all prefixes. Asking
    again for a placeholder, at any time, changes nothing. All paths that are written down are
    written with these placeholders. -/
theorem Builder.one_alias_per_name (context : AliasContext) (lead : Value)
    (steps : List BuilderStep) :
    let b := ((Builder.start context lead).runSteps steps).1
    let issued := (Builder.start context lead).issued steps
    (∀ noted ∈ issued, ∀ other ∈ issued, noted.lead = other.lead → noted.name = other.name →
      noted.placeholder = other.placeholder) ∧
    (∀ noted ∈ issued, ∀ other ∈ issued, noted.placeholder = other.placeholder →
      noted.name = other.name) ∧
    (∀ noted ∈ issued, ∀ later, b.aliasing.Registrations later →
      nameAlias noted.lead noted.name later = .ok noted.placeholder later) ∧
    ∀ text ∈ b.paths, IsWritten issued text := by
  intro b issued
  have haccounts : b.Accounts issued :=
    Builder.accounts_runSteps (Builder.accounts_start context lead) steps
  refine ⟨?_, ?_, ?_, haccounts.written⟩
  · intro noted hnoted other hother hlead hname
    have hcached := (haccounts.kept noted hnoted).cached
    rw [hlead, hname, (haccounts.kept other hother).cached] at hcached
    exact (Option.some.inj hcached).symm
  · intro noted hnoted other hother hplaceholder
    have hname := (haccounts.kept noted hnoted).name
    rw [hplaceholder, (haccounts.kept other hother).name] at hname
    exact (Option.some.inj hname).symm
  · intro noted hnoted later hlater
    exact ((haccounts.kept noted hnoted).registrations hlater).nameAlias_unchanged

/-- The context has noted a placeholder for a name that another name takes here, and a step fails
    behind its first path. -/
theorem one_alias_per_name_of_taken :
    let start := Builder.start ⟨.null, 1, [⟨.text "", "A", "#a"⟩]⟩ .null
    let steps : List BuilderStep := [.set [⟨"$.a.A", .int 1⟩],
      .remove [⟨"$.b", .null⟩, ⟨"$b", .null⟩], .require "$.A[0]" none "=" .null]
    ∃ noted ∈ start.issued steps, noted.name = "A" ∧ noted.placeholder = "#a1" ∧
      (∀ other ∈ start.issued steps, "#a1" = other.placeholder → "A" = other.name) ∧
      nameAlias noted.lead "A" (start.runSteps steps).1.aliasing =
        .ok "#a1" (start.runSteps steps).1.aliasing := by
  intro start steps
  obtain ⟨-, hname, hagain, -⟩ :=
    Builder.one_alias_per_name ⟨.null, 1, [⟨.text "", "A", "#a"⟩]⟩ .null steps
  have hmem : ("A", "#a1") ∈ (start.issued steps).map fun noted =>
      (noted.name, noted.placeholder) := by decide +kernel
  obtain ⟨noted, hnoted, heq⟩ := List.mem_map.mp hmem
  obtain ⟨hA, hplaceholder⟩ := Prod.mk.inj heq
  refine ⟨noted, hnoted, hA, hplaceholder, fun other hother hsame => ?_, ?_⟩
  · rw [← hA]
    exact hname noted hnoted other hother (hplaceholder.trans hsame)
  · rw [← hA, ← hplaceholder]
    exact hagain noted hnoted _ (.refl _)

end ItemDelta
