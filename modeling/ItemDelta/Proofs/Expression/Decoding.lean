import ItemDelta.Expression.Lock
import ItemDelta.Proofs.Expression.Meaning

/-!
# What a builder writes down

A builder takes steps in any order, and steps that fail in between. What its expression means is
what the steps said that did not fail: each placeholder in it still has the meaning that it was
given when it was written down.

## Main definitions

* `Request` — what a builder was told.
* `BuilderStep` — one step of a builder.
* `Builder.runSteps` — a run of steps, and those of them that did not fail.
* `Builder.Records` — all that is written down in a builder means what it was told.

## Main results

* `Builder.Records.meaning_finish` — the meaning of what is written down.
* `BuilderStep.leads_run` — what one step writes down.
* `Builder.Records.runSteps` — what a run of steps writes down.
-/

namespace ItemDelta

/-! ### Requests -/

/-- What a builder was told: the assignments, removals and deletions in their order, and the last
    demand. -/
structure Request where
  set : List (List Key × Value)
  remove : List (List Key)
  delete : List (List Key × Value)
  demand : Option Demand

/-- Nothing at all. -/
def Request.empty : Request := ⟨[], [], [], none⟩

/-- The meaning of an expression that asks for just this: the clauses that have items, and the
    demand. -/
def Request.meaning (request : Request) : Meaning :=
  { update := UpdateClause.ofItems .set request.set ++
      UpdateClause.ofItems .remove request.remove ++ UpdateClause.ofItems .delete request.delete
    condition := request.demand }

/-- The keys of a path. -/
def keysOf (path : String) : List Key := (pathKeys path).toOption.getD []

/-- The keys of the path of a node, and its value. -/
def Node.target (node : Node) : List Key × Value := (keysOf node.path, node.value)

/-- What a condition on a path demands. -/
def demandOf (path : String) (operator : String) : Option Value → Demand
  | none => .absent (keysOf path)
  | some value => .compares (keysOf path) operator value

/-- One step of a builder, with its arguments. -/
inductive BuilderStep where
  | set (nodes : List Node)
  | remove (nodes : List Node)
  | delete (nodes : List Node)
  | require (path : String) (expected : Option Value) (operator : String) (lead : Value)

namespace BuilderStep

/-- What a step does to a builder. -/
def run : BuilderStep → Building Unit
  | .set nodes => Builder.set nodes
  | .remove nodes => Builder.remove nodes
  | .delete nodes => Builder.delete nodes
  | .require path expected operator lead => Builder.require path expected operator lead

/-- What a builder was told, once it has taken one more step. -/
def addTo (request : Request) : BuilderStep → Request
  | .set nodes => { request with set := request.set ++ nodes.map Node.target }
  | .remove nodes => { request with remove := request.remove ++ nodes.map (keysOf ·.path) }
  | .delete nodes => { request with delete := request.delete ++ nodes.map Node.target }
  | .require path expected operator _ =>
    { request with demand := some (demandOf path operator expected) }

/-- No path of a step is that of the root, and its condition has one of the operators. -/
def IsProper : BuilderStep → Prop
  | .set nodes => ∀ node ∈ nodes, pathKeys node.path ≠ .ok []
  | .remove nodes => ∀ node ∈ nodes, pathKeys node.path ≠ .ok []
  | .delete nodes => ∀ node ∈ nodes, pathKeys node.path ≠ .ok []
  | .require path _ operator _ => pathKeys path ≠ .ok [] ∧ operator ∈ comparisonOperators

end BuilderStep

/-- What a builder was told by the steps of a list. -/
def Request.ofSteps (steps : List BuilderStep) : Request :=
  steps.foldl BuilderStep.addTo Request.empty

/-- A run of steps from a builder on: the builder that it ends with, and the steps that did not
    fail. A step that fails leaves the registrations made before its failure. -/
def Builder.runSteps (builder : Builder) : List BuilderStep → Builder × List BuilderStep
  | [] => (builder, [])
  | step :: steps =>
    match step.run builder with
    | .ok _ next => ((next.runSteps steps).1, step :: (next.runSteps steps).2)
    | .error _ next => next.runSteps steps

/-! ### What is written down -/

/-- A condition demands what it is written down for. -/
inductive SpellsDemand (names : Registry String) (values : Registry Value) :
    Condition → Demand → Prop where
  | absent {path : String} {keys : List Key} : SpellsPath names path keys → keys ≠ [] →
      SpellsDemand names values (.absent path) (.absent keys)
  | compares {path operator text : String} {keys : List Key} {value : Value} :
      SpellsPath names path keys → keys ≠ [] → operator ∈ comparisonOperators →
      SpellsValue values text value →
      SpellsDemand names values (.compares path operator text) (.compares keys operator value)

theorem eq_none_or_exists_of_rel {α β : Type} {related : α → β → Prop} {x : Option α}
    {y : Option β} (h : Option.Rel related x y) :
    x = none ∧ y = none ∨ ∃ a b, x = some a ∧ y = some b ∧ related a b := by
  cases h with
  | none => exact .inl ⟨rfl, rfl⟩
  | some hab => exact .inr ⟨_, _, rfl, rfl, hab⟩

theorem SpellsDemand.grows {s t : AliasState} {condition : Condition} {demand : Demand}
    (h : SpellsDemand s.names s.values condition demand) (hgrows : s.Grows t) :
    SpellsDemand t.names t.values condition demand := by
  cases h with
  | absent hpath hne => exact .absent (hpath.grows hgrows) hne
  | compares hpath hne hoperator hvalue =>
    exact .compares (hpath.grows hgrows) hne hoperator (hvalue.grows hgrows)

theorem readCondition_of_spells {names : Registry String} {values : Registry Value}
    {condition : Condition} {demand : Demand} (h : SpellsDemand names values condition demand) :
    readCondition names values condition.text = some demand := by
  have hoperators : ∀ operator ∈ comparisonOperators, ' ' ∉ operator.toList := by decide
  cases h with
  | absent hpath hne => exact readCondition_absent hpath hne
  | compares hpath hne hoperator hvalue =>
    exact readCondition_compares hpath hne (hoperators _ hoperator) hvalue

namespace Builder

/-- All items and the condition of a builder spell out what it was told. -/
structure Spells (builder : Builder) (request : Request) : Prop where
  set : SpellNodes builder.aliasing.names builder.aliasing.values builder.clauses.set request.set
  remove : SpellPaths builder.aliasing.names builder.clauses.remove request.remove
  delete : SpellNodes builder.aliasing.names builder.aliasing.values builder.clauses.delete
    request.delete
  condition : Option.Rel (SpellsDemand builder.aliasing.names builder.aliasing.values)
    builder.condition request.demand

/-- What is written down in a builder means what the builder was told, as long as the counter
    leaves room for suffixes. -/
structure Records (builder : Builder) (request : Request) : Prop where
  sound : builder.aliasing.context.IsSound
  spells : builder.aliasing.context.counter < counterLimit → builder.Spells request

/-- Registrations change nothing but the registries of a builder, and these only grow. -/
structure Registers (b c : Builder) : Prop where
  grows : b.aliasing.Grows c.aliasing
  frame : c = { b with aliasing := c.aliasing }

instance : Std.Refl Registers := ⟨fun b => ⟨Std.Refl.refl b.aliasing, rfl⟩⟩

theorem Registers.trans {b c d : Builder} (h : b.Registers c) (h' : c.Registers d) :
    b.Registers d where
  grows := h.grows.trans h'.grows
  frame := by
    rw [h'.frame, h.frame]

instance : IsTrans Builder Registers := ⟨fun _ _ _ => Registers.trans⟩

section Registers

variable {b c : Builder} {request : Request}

theorem Spells.registers (h : b.Spells request) (hregisters : b.Registers c) :
    c.Spells request := by
  obtain ⟨hgrows, hframe⟩ := hregisters
  rw [hframe]
  constructor
  · exact h.set.imp fun item target h => ⟨h.1.grows hgrows, h.2.1, h.2.2.grows hgrows⟩
  · exact h.remove.imp fun item keys h => ⟨h.1.grows hgrows, h.2⟩
  · exact h.delete.imp fun item target h => ⟨h.1.grows hgrows, h.2.1, h.2.2.grows hgrows⟩
  · rcases eq_none_or_exists_of_rel h.condition with ⟨hb, hr⟩ | ⟨condition, demand, hb, hr, hmeans⟩
    · rw [hr]
      exact hb ▸ .none
    · rw [hr]
      exact hb ▸ .some (hmeans.grows hgrows)

theorem Records.registers (h : b.Records request) (hregisters : b.Registers c) :
    c.Records request where
  sound := hregisters.grows.sound h.sound
  spells hlimit :=
    (h.spells (Int.lt_of_le_of_lt hregisters.grows.counter hlimit)).registers hregisters

/-- A change that touches no registry and spells out what a builder was told besides. -/
theorem Records.write {next : Request} (h : b.Records request)
    (haliasing : c.aliasing = b.aliasing)
    (hspells : b.aliasing.context.counter < counterLimit → b.Spells request → c.Spells next) :
    c.Records next where
  sound := haliasing ▸ h.sound
  spells hlimit := by
    rw [haliasing] at hlimit
    exact hspells hlimit (h.spells hlimit)

end Registers

/-- What is written down in a builder is read as what the builder was told. -/
theorem Records.meaning_finish {b : Builder} {request : Request} (h : b.Records request)
    (hlimit : b.aliasing.context.counter < counterLimit) :
    b.finish.meaning = some request.meaning := by
  have hspells := h.spells hlimit
  have hupdate := readUpdate_of_spells hspells.set hspells.remove hspells.delete
  rw [Expression.meaning, finish, hupdate, Request.meaning]
  rcases eq_none_or_exists_of_rel hspells.condition with
    ⟨hb, hr⟩ | ⟨condition, demand, hb, hr, hmeans⟩
  · rw [hb, hr]
    rfl
  · rw [hb, hr]
    simp [readCondition_of_spells hmeans]

/-! ### Single steps -/

section Steps

variable {b : Builder} {request : Request}

theorem leads_registering {α : Type} {action : Aliasing α} {post : α → AliasState → Prop}
    (h : Leads AliasState.Grows action b.aliasing post) :
    Leads Registers (registering action) b fun result c => post result c.aliasing := by
  cases haction : action b.aliasing with
  | ok result t =>
    obtain ⟨hgrows, hpost⟩ := h.ok result t haction
    have hrun : registering action b = .ok result { b with aliasing := t } := by
      rw [registering, haction]
    exact .of_ok hrun ⟨hgrows, rfl⟩ hpost
  | error fault t =>
    have hgrows := h.error fault t haction
    have hrun : registering action b = .error fault { b with aliasing := t } := by
      rw [registering, haction]
    exact .of_error hrun ⟨hgrows, rfl⟩

theorem keysOf_eq {path : String} {keys : List Key} (h : pathKeys path = .ok keys) :
    keysOf path = keys := by
  rw [keysOf, h]
  rfl

theorem leads_aliasedPath (lead : Value) (path : String) (hsound : b.aliasing.context.IsSound) :
    Leads Registers (aliasedPath path lead) b fun text c =>
      pathKeys path = .ok (keysOf path) ∧
        (c.aliasing.context.counter < counterLimit →
          SpellsPath c.aliasing.names text (keysOf path)) := by
  refine .get ((leads_registering (leads_aliasPath _ path hsound)).mono ?_)
  rintro text c - ⟨keys, hkeys, hspells⟩
  rw [keysOf_eq hkeys]
  exact ⟨hkeys, hspells⟩

theorem leads_aliased (lead : Value) (node : Node) (hsound : b.aliasing.context.IsSound) :
    Leads Registers (aliased node lead) b fun item c =>
      pathKeys node.path = .ok (keysOf node.path) ∧
        (c.aliasing.context.counter < counterLimit →
          SpellsPath c.aliasing.names item.path (keysOf node.path) ∧
            SpellsValue c.aliasing.values item.value node.value) := by
  refine .get (.bind (leads_registering (leads_aliasNode _ node hsound)) ?_)
  rintro texts c - ⟨keys, hkeys, hspells⟩
  rw [keysOf_eq hkeys]
  exact .pure ⟨hkeys, hspells⟩

theorem leads_aliased_mapM (nodes : List Node) (hsound : b.aliasing.context.IsSound) :
    Leads Registers (nodes.mapM (aliased · .null)) b fun items c =>
      (∀ node ∈ nodes, pathKeys node.path ≠ .ok []) →
        c.aliasing.context.counter < counterLimit →
          SpellNodes c.aliasing.names c.aliasing.values items (nodes.map Node.target) := by
  -- A placeholder means the same in the end as at its registration, since registries only grow.
  refine (Leads.mapM ?_ fun node hnode c hregisters =>
    (leads_aliased .null node (hregisters.grows.sound hsound)).mono
      fun item d _ h => And.intro hnode h).mono ?_
  · rintro node item c d hregisters ⟨hnode, hkeys, hspells⟩
    refine ⟨hnode, hkeys, fun hlimit => ?_⟩
    obtain ⟨hpath, hvalue⟩ := hspells (Int.lt_of_le_of_lt hregisters.grows.counter hlimit)
    exact ⟨hpath.grows hregisters.grows, hvalue.grows hregisters.grows⟩
  · intro items c _ hitems hpaths hlimit
    rw [SpellNodes, List.forall₂_map_right_iff]
    refine hitems.imp fun item node h => ?_
    obtain ⟨hnode, hkeys, hspells⟩ := h
    obtain ⟨hpath, hvalue⟩ := hspells hlimit
    exact ⟨hpath, fun hnil => hpaths node hnode (hkeys.trans (congrArg _ hnil)), hvalue⟩

theorem leads_aliasedPath_mapM (nodes : List Node) (hsound : b.aliasing.context.IsSound) :
    Leads Registers (nodes.mapM fun node => aliasedPath node.path .null) b fun items c =>
      (∀ node ∈ nodes, pathKeys node.path ≠ .ok []) →
        c.aliasing.context.counter < counterLimit →
          SpellPaths c.aliasing.names items (nodes.map (keysOf ·.path)) := by
  refine (Leads.mapM ?_ fun node hnode c hregisters =>
    (leads_aliasedPath .null node.path (hregisters.grows.sound hsound)).mono
      fun item d _ h => And.intro hnode h).mono ?_
  · rintro node item c d hregisters ⟨hnode, hkeys, hspells⟩
    refine ⟨hnode, hkeys, fun hlimit => ?_⟩
    exact (hspells (Int.lt_of_le_of_lt hregisters.grows.counter hlimit)).grows hregisters.grows
  · intro items c _ hitems hpaths hlimit
    rw [SpellPaths, List.forall₂_map_right_iff]
    refine hitems.imp fun item node h => ?_
    obtain ⟨hnode, hkeys, hspells⟩ := h
    exact ⟨hspells hlimit, fun hnil => hpaths node hnode (hkeys.trans (congrArg _ hnil))⟩

/-- The registries of a builder only grow, whatever is written down. -/
def Extends (b c : Builder) : Prop := b.aliasing.Grows c.aliasing

instance : Std.Refl Extends := ⟨fun b => Std.Refl.refl b.aliasing⟩

instance : IsTrans Builder Extends := ⟨fun _ _ _ => AliasState.Grows.trans⟩

/-- Some registrations, and then a change that writes their results down: if the registrations
    fail, nothing is written down. -/
theorem leads_modify {α : Type} {action : Building α} {post : α → Builder → Prop}
    (change : α → Builder → Builder)
    (haliasing : ∀ result c, (change result c).aliasing = c.aliasing)
    (h : Leads Registers action b post) :
    Leads Extends (action >>= fun result => modify (change result)) b (fun _ d =>
        ∃ result c, b.Registers c ∧ post result c ∧ d = change result c) ∧
      ∀ fault c, (action >>= fun result => modify (change result)) b = .error fault c →
        b.Registers c := by
  cases haction : action b with
  | ok result c =>
    obtain ⟨hregisters, hpost⟩ := h.ok result c haction
    have hrun : (action >>= fun result => modify (change result)) b =
        .ok PUnit.unit (change result c) := by
      rw [bind_of_ok haction]
      rfl
    constructor
    · refine .of_ok hrun ?_ ⟨result, c, hregisters, hpost, rfl⟩
      rw [Extends, haliasing]
      exact hregisters.grows
    · intro fault d heq
      cases heq.symm.trans hrun
  | error fault c =>
    have hregisters := h.error fault c haction
    have hrun : (action >>= fun result => modify (change result)) b = .error fault c :=
      bind_of_error haction
    constructor
    · exact .of_error hrun hregisters.grows
    · intro other d heq
      cases heq.symm.trans hrun
      exact hregisters

end Steps

end Builder

/-- A step that does not fail is written down; one that fails is not. -/
theorem BuilderStep.leads_run {b : Builder} (step : BuilderStep)
    (hsound : b.aliasing.context.IsSound) :
    Leads Builder.Extends step.run b (fun _ c => step.IsProper →
        ∀ request, b.Records request → c.Records (step.addTo request)) ∧
      ∀ fault c, step.run b = .error fault c → b.Registers c := by
  cases step with
  | set nodes =>
    obtain ⟨hok, herror⟩ := Builder.leads_modify (fun items builder =>
      { builder with clauses := { builder.clauses with set := builder.clauses.set ++ items } })
      (fun _ _ => rfl) (Builder.leads_aliased_mapM nodes hsound)
    refine ⟨hok.mono ?_, herror⟩
    rintro _ _ - ⟨items, c, hregisters, hitems, rfl⟩ hproper request hrecords
    refine (hrecords.registers hregisters).write rfl fun hlimit hspells => ?_
    exact ⟨List.rel_append hspells.set (hitems hproper hlimit), hspells.remove, hspells.delete,
      hspells.condition⟩
  | remove nodes =>
    obtain ⟨hok, herror⟩ := Builder.leads_modify (fun items builder =>
      { builder with
        clauses := { builder.clauses with remove := builder.clauses.remove ++ items } })
      (fun _ _ => rfl) (Builder.leads_aliasedPath_mapM nodes hsound)
    refine ⟨hok.mono ?_, herror⟩
    rintro _ _ - ⟨items, c, hregisters, hitems, rfl⟩ hproper request hrecords
    refine (hrecords.registers hregisters).write rfl fun hlimit hspells => ?_
    exact ⟨hspells.set, List.rel_append hspells.remove (hitems hproper hlimit), hspells.delete,
      hspells.condition⟩
  | delete nodes =>
    obtain ⟨hok, herror⟩ := Builder.leads_modify (fun items builder =>
      { builder with
        clauses := { builder.clauses with delete := builder.clauses.delete ++ items } })
      (fun _ _ => rfl) (Builder.leads_aliased_mapM nodes hsound)
    refine ⟨hok.mono ?_, herror⟩
    rintro _ _ - ⟨items, c, hregisters, hitems, rfl⟩ hproper request hrecords
    refine (hrecords.registers hregisters).write rfl fun hlimit hspells => ?_
    exact ⟨hspells.set, hspells.remove, List.rel_append hspells.delete (hitems hproper hlimit),
      hspells.condition⟩
  | require path expected operator lead =>
    cases expected with
    | none =>
      obtain ⟨hok, herror⟩ := Builder.leads_modify (fun text builder =>
        { builder with condition := some (.absent text) })
        (fun _ _ => rfl) (Builder.leads_aliasedPath lead path hsound)
      refine ⟨Leads.mono hok ?_, herror⟩
      rintro _ _ - ⟨text, c, hregisters, ⟨hkeys, hpath⟩, rfl⟩ ⟨hproper, -⟩ request hrecords
      refine (hrecords.registers hregisters).write rfl fun hlimit hspells => ?_
      have hne : keysOf path ≠ [] := fun hnil => hproper (hkeys.trans (congrArg _ hnil))
      exact ⟨hspells.set, hspells.remove, hspells.delete, .some (.absent (hpath hlimit) hne)⟩
    | some value =>
      obtain ⟨hok, herror⟩ := Builder.leads_modify (fun item builder =>
        { builder with condition := some (.compares item.path operator item.value) })
        (fun _ _ => rfl) (Builder.leads_aliased lead ⟨path, value⟩ hsound)
      refine ⟨Leads.mono hok ?_, herror⟩
      rintro _ _ - ⟨item, c, hregisters, ⟨hkeys, hitem⟩, rfl⟩ ⟨hproper, hoperator⟩ request hrecords
      refine (hrecords.registers hregisters).write rfl fun hlimit hspells => ?_
      have hne : keysOf path ≠ [] := fun hnil => hproper (hkeys.trans (congrArg _ hnil))
      obtain ⟨hpath, hvalue⟩ := hitem hlimit
      exact ⟨hspells.set, hspells.remove, hspells.delete,
        .some (.compares hpath hne hoperator hvalue)⟩

/-! ### Runs -/

namespace Builder

variable {b : Builder} {request : Request} {steps : List BuilderStep}

theorem extends_runSteps (steps : List BuilderStep) (hsound : b.aliasing.context.IsSound) :
    b.Extends (b.runSteps steps).1 := by
  induction steps generalizing b with
  | nil => exact Std.Refl.refl b
  | cons step steps ih =>
    obtain ⟨hok, herror⟩ := step.leads_run hsound
    rw [runSteps]
    cases hrun : step.run b with
    | ok result c =>
      have hextends := (hok.ok result c hrun).1
      exact hextends.trans (ih (hextends.sound hsound))
    | error fault c =>
      have hextends := hok.error fault c hrun
      exact hextends.trans (ih (hextends.sound hsound))

/-- A run of steps writes down those of them that do not fail. -/
theorem Records.runSteps (hproper : ∀ step ∈ steps, step.IsProper) (hrecords : b.Records request) :
    (b.runSteps steps).1.Records ((b.runSteps steps).2.foldl BuilderStep.addTo request) := by
  induction steps generalizing b request with
  | nil => exact hrecords
  | cons step steps ih =>
    have hsteps := fun other hother => hproper other (List.mem_cons_of_mem step hother)
    obtain ⟨hok, herror⟩ := step.leads_run hrecords.sound
    rw [Builder.runSteps]
    cases hrun : step.run b with
    | ok result c =>
      have hstep := (hok.ok result c hrun).2 (hproper step List.mem_cons_self) request hrecords
      exact ih hsteps hstep
    | error fault c => exact ih hsteps (hrecords.registers (herror fault c hrun))

theorem records_start {context : AliasContext} (hsound : context.IsSound) (lead : Value) :
    (start context lead).Records .empty :=
  ⟨hsound, fun _ => ⟨.nil, .nil, .nil, .none⟩⟩

end Builder

end ItemDelta
