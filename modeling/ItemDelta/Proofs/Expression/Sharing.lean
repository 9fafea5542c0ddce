import ItemDelta.Proofs.Expression.Steps

/-!
# Contexts and registries in shared use

Contexts and registries are passed to calls one by one, so a context can fill many registries, and
a registry can be filled from many contexts. What a context has noted is then no more than a
proposal: it is kept only where it is free in the registry at hand. So whoever shares what with
whom, a placeholder that means something in a registry goes on meaning it.

## Main definitions

* `Workspace` — contexts and registries that any call can use.
* `Call`, `Call.run` — a call of any kind, and what it does to a workspace.
* `Workspace.after` — a workspace after some calls, which may have failed.
* `Workspace.Keeps` — no entry of a registry is removed or changed.
* `Call.IsNew`, `Call.Means` — what is new in a reply, and what the placeholders in it mean.

## Main results

* `Call.leads_run` — what one call keeps and replies.
* `Workspace.keeps_after` — what any calls keep.
* `Workspace.means_after` — the placeholders of any reply keep their meaning through all calls.
-/

namespace ItemDelta

/-! ### Calls -/

/-- Contexts, registries of names and registries of values, by number. -/
structure Workspace where
  contexts : Nat → AliasContext
  names : Nat → Registry String
  values : Nat → Registry Value

/-- What has a number, or something else that has none. -/
def numberedOr {α : Type} (numbered : Nat → α) (other : α) : Option Nat → α
  | some number => numbered number
  | none => other

/-- What has a number is replaced, and what has none is forgotten. -/
def replaceNumbered {α : Type} (numbered : Nat → α) : Option Nat → α → Nat → α
  | some number, x => Function.update numbered number x
  | none, _ => numbered

namespace Workspace

/-- The context of a call that may be given none: it has a fresh one then. -/
def context (w : Workspace) (number : Option Nat) : AliasContext :=
  numberedOr w.contexts .fresh number

/-- The context and the registries of a call. -/
def state (w : Workspace) (context names values : Option Nat) : AliasState :=
  ⟨w.context context, numberedOr w.names [] names, numberedOr w.values [] values, []⟩

/-- What a call made of its context. -/
def putContext (w : Workspace) (number : Option Nat) (context : AliasContext) : Workspace :=
  { w with contexts := replaceNumbered w.contexts number context }

/-- What a call made of its context and its registries. -/
def putState (w : Workspace) (context names values : Option Nat) (s : AliasState) : Workspace :=
  ⟨replaceNumbered w.contexts context s.context, replaceNumbered w.names names s.names,
    replaceNumbered w.values values s.values⟩

/-- An action on the context and the registries of a call. They keep what it did before it
    failed. -/
def filling {α : Type} (context names values : Option Nat) (action : Aliasing α) :
    EStateM Error Workspace α := fun w =>
  match action (w.state context names values) with
  | .ok result s => .ok result (w.putState context names values s)
  | .error fault s => .error fault (w.putState context names values s)

/-- An action on the context of a call. -/
def advancing {α : Type} (context : Option Nat) (action : Compiling α) :
    EStateM Error Workspace α := fun w =>
  match action (w.context context) with
  | .ok result c => .ok result (w.putContext context c)
  | .error fault c => .error fault (w.putContext context c)

end Workspace

/-- Another prefix. -/
def releading (lead : Value) : Compiling Unit := modify fun context => { context with lead }

/-- A call: for the placeholders on a path or of a node, for that of one name or one value, for a
    cut, for another prefix of a context, or for an expression. Where a call can go without a
    context, it may have none. -/
inductive Call where
  | ofPath (context : Option Nat) (names : Nat) (lead : Value) (path : String)
  | ofNode (context : Option Nat) (names values : Nat) (lead : Value) (node : Node)
  | ofName (context names : Nat) (lead : Value) (name : String)
  | ofValue (context values : Nat) (lead : Value) (keys : List Value) (value : Value)
  | shorten (context : Option Nat) (v limit : Value)
  | relead (context : Nat) (lead : Value)
  | compile (context : Option Nat) (compilation : Compilation)

namespace Call

/-- What a call returns. -/
def Reply : Call → Type
  | .ofPath .. | .ofName .. | .ofValue .. => String
  | .ofNode .. => String × String
  | .shorten .. => Value
  | .relead .. => Unit
  | .compile .. => Expression

open Workspace in
/-- What a call does and returns. -/
def run : (call : Call) → EStateM Error Workspace call.Reply
  | .ofPath context names lead path => filling context (some names) none (aliasPath lead path)
  | .ofNode context names values lead node =>
    filling context (some names) (some values) (aliasNode lead node)
  | .ofName context names lead name =>
    filling (some context) (some names) none (nameAlias lead name)
  | .ofValue context values lead keys value =>
    filling (some context) none (some values) (valueAlias lead keys value)
  | .shorten context v limit => advancing context (cutTo v limit)
  | .relead context lead => advancing (some context) (releading lead)
  | .compile context compilation => advancing context compilation.run

end Call

/-- A workspace after some calls. -/
def Workspace.after (w : Workspace) (calls : List Call) : Workspace :=
  calls.foldl (fun w call => stateAfter call.run w) w

/-! ### What calls keep, and what they reply -/

/-- No entry of a registry is removed or changed from one workspace to another. -/
structure Workspace.Keeps (w t : Workspace) : Prop where
  names : ∀ number placeholder name, (w.names number).get? placeholder = some name →
    (t.names number).get? placeholder = some name
  values : ∀ number placeholder value, (w.values number).get? placeholder = some value →
    (t.values number).get? placeholder = some value

instance : Std.Refl Workspace.Keeps := ⟨fun _ => ⟨fun _ _ _ h => h, fun _ _ _ h => h⟩⟩

theorem Workspace.Keeps.trans {w t u : Workspace} (h : w.Keeps t) (h' : t.Keeps u) :
    w.Keeps u where
  names number placeholder name hget :=
    h'.names number placeholder name (h.names number placeholder name hget)
  values number placeholder value hget :=
    h'.values number placeholder value (h.values number placeholder value hget)

namespace Call

/-- The placeholder of a value in a reply is none in the registry that it was asked for. -/
def IsNew (w : Workspace) : (call : Call) → call.Reply → Prop
  | .ofNode _ _ values _ _, texts => (w.values values).get? texts.2 = none
  | .ofValue _ values _ _ _, placeholder => (w.values values).get? placeholder = none
  | .ofPath .., _ | .ofName .., _ | .shorten .., _ | .relead .., _ | .compile .., _ => True

/-- The placeholders in a reply mean what they were asked for, in the registries that they were
    asked for. -/
def Means (w : Workspace) : (call : Call) → call.Reply → Prop
  | .ofPath _ names _ path, text => IsAliased (w.names names) path text
  | .ofNode _ names values _ node, texts =>
    IsAliased (w.names names) node.path texts.1 ∧
      (w.values values).get? texts.2 = some node.value
  | .ofName _ names _ name, placeholder => (w.names names).get? placeholder = some name
  | .ofValue _ values _ _ value, placeholder => (w.values values).get? placeholder = some value
  | .shorten .., _ | .relead .., _ | .compile .., _ => True

end Call

section Keeping

variable {w t : Workspace}

theorem IsAliased.keeps {number : Nat} {path text : String} (h : w.Keeps t)
    (haliased : IsAliased (w.names number) path text) :
    IsAliased (t.names number) path text := by
  obtain ⟨keys, placeholders, hkeys, htext, hmeans⟩ := haliased
  exact ⟨keys, placeholders, hkeys, htext, hmeans.imp fun _ _ => h.names number _ _⟩

theorem Call.Means.keeps {call : Call} {reply : call.Reply} (h : w.Keeps t)
    (hmeans : call.Means w reply) : call.Means t reply := by
  cases call with
  | ofPath => exact IsAliased.keeps h hmeans
  | ofNode => exact ⟨IsAliased.keeps h hmeans.1, h.values _ _ _ hmeans.2⟩
  | ofName => exact h.names _ _ _ hmeans
  | ofValue => exact h.values _ _ _ hmeans
  | shorten | relead | compile => trivial

/-! ### One call -/

theorem replaceNumbered_grows {α : Type} {numbered : Nat → Registry α} {number : Option Nat}
    {registry : Registry α}
    (h : ∀ placeholder meaning, (numberedOr numbered [] number).get? placeholder = some meaning →
      registry.get? placeholder = some meaning) (other : Nat) {placeholder : String} {meaning : α}
    (hget : (numbered other).get? placeholder = some meaning) :
    (replaceNumbered numbered number registry other).get? placeholder = some meaning := by
  cases number with
  | none => exact hget
  | some number =>
    rw [replaceNumbered]
    by_cases hother : other = number
    · subst hother
      rw [Function.update_self]
      exact h placeholder meaning hget
    · rw [Function.update_of_ne hother]
      exact hget

theorem leads_filling {α : Type} {context names values : Option Nat} {action : Aliasing α}
    {post : α → AliasState → Prop}
    (h : Leads AliasState.Registrations action (w.state context names values) post) :
    Leads Workspace.Keeps (Workspace.filling context names values action) w fun result t =>
      ∃ s, t = w.putState context names values s ∧ post result s := by
  have hkeeps : ∀ s, (w.state context names values).Registrations s →
      w.Keeps (w.putState context names values s) := fun s hs =>
    ⟨fun other _ _ => replaceNumbered_grows hs.grows.names other,
      fun other _ _ => replaceNumbered_grows hs.grows.values other⟩
  have hrun : Workspace.filling context names values action w =
      match action (w.state context names values) with
      | .ok result s => .ok result (w.putState context names values s)
      | .error fault s => .error fault (w.putState context names values s) := rfl
  cases haction : action (w.state context names values) with
  | ok result s =>
    rw [haction] at hrun
    obtain ⟨hregistrations, hpost⟩ := h.ok result s haction
    exact .of_ok hrun (hkeeps s hregistrations) ⟨s, rfl, hpost⟩
  | error fault s =>
    rw [haction] at hrun
    exact .of_error hrun (hkeeps s (h.error fault s haction))

/-- An action on a context does not reach the registries. -/
theorem leads_advancing {α : Type} (context : Option Nat) (action : Compiling α) :
    Leads Workspace.Keeps (Workspace.advancing context action) w fun _ _ => True := by
  have hkeeps : ∀ c, w.Keeps (w.putContext context c) := fun c =>
    ⟨fun _ _ _ hget => hget, fun _ _ _ hget => hget⟩
  have hrun : Workspace.advancing context action w =
      match action (w.context context) with
      | .ok result c => .ok result (w.putContext context c)
      | .error fault c => .error fault (w.putContext context c) := rfl
  cases haction : action (w.context context) with
  | ok result c =>
    rw [haction] at hrun
    exact .of_ok hrun (hkeeps c) trivial
  | error fault c =>
    rw [haction] at hrun
    exact .of_error hrun (hkeeps c)

theorem names_putState {context values : Option Nat} {names : Nat} {s : AliasState} :
    (w.putState context (some names) values s).names names = s.names := by
  change Function.update w.names names s.names names = s.names
  exact Function.update_self names s.names w.names

theorem values_putState {context names : Option Nat} {values : Nat} {s : AliasState} :
    (w.putState context names (some values) s).values values = s.values := by
  change Function.update w.values values s.values values = s.values
  exact Function.update_self values s.values w.values

/-- A call changes no entry of a registry. The placeholders that it returns mean what they were
    asked for, and that of a value meant nothing before. -/
theorem Call.leads_run (call : Call) (w : Workspace) :
    Leads Workspace.Keeps call.run w fun reply t => call.IsNew w reply ∧ call.Means t reply := by
  cases call with
  | ofPath context names lead path =>
    refine (leads_filling (aliasPath_registers path)).mono ?_
    rintro text _ - ⟨s, rfl, haliased⟩
    rw [← names_putState] at haliased
    exact ⟨trivial, haliased⟩
  | ofNode context names values lead node =>
    refine (leads_filling (aliasNode_registers node)).mono ?_
    rintro texts _ - ⟨s, rfl, haliased, hnew, hvalue⟩
    rw [← names_putState] at haliased
    rw [← values_putState] at hvalue
    exact ⟨hnew, haliased, hvalue⟩
  | ofName context names lead name =>
    refine (leads_filling (nameAlias_registers lead name _)).mono ?_
    rintro placeholder _ - ⟨s, rfl, hget⟩
    rw [← names_putState] at hget
    exact ⟨trivial, hget⟩
  | ofValue context values lead keys value =>
    refine (leads_filling (valueAlias_registers lead keys value _)).mono ?_
    rintro placeholder _ - ⟨s, rfl, hnew, hget⟩
    rw [← values_putState] at hget
    exact ⟨hnew, hget⟩
  | shorten context v limit =>
    exact (leads_advancing context (cutTo v limit)).mono fun _ _ _ _ => ⟨trivial, trivial⟩
  | relead context lead =>
    exact (leads_advancing (some context) (releading lead)).mono fun _ _ _ _ => ⟨trivial, trivial⟩
  | compile context compilation =>
    exact (leads_advancing context _).mono fun _ _ _ _ => ⟨trivial, trivial⟩

/-! ### Many calls -/

theorem Workspace.keeps_after (w : Workspace) (calls : List Call) : w.Keeps (w.after calls) := by
  induction calls generalizing w with
  | nil => exact Std.Refl.refl w
  | cons call calls ih => exact (call.leads_run w).stateAfter.trans (ih _)

theorem Workspace.after_append (w : Workspace) (before after : List Call) :
    w.after (before ++ after) = (w.after before).after after :=
  List.foldl_append

/-- Whoever shares contexts and registries with whom: no entry that a registry has at any time is
    removed or changed by the calls from then on, whether they fail or not. The placeholders that a
    call returns mean what they were asked for from then on, and that of a value meant nothing
    before the call. -/
theorem Workspace.means_after (w : Workspace) (before after : List Call) :
    (w.after before).Keeps (w.after (before ++ after)) ∧
      ∀ (call : Call) reply next, call.run (w.after before) = .ok reply next →
        call.IsNew (w.after before) reply ∧
          call.Means (w.after (before ++ call :: after)) reply := by
  constructor
  · rw [w.after_append]
    exact (w.after before).keeps_after after
  · intro call reply next hrun
    obtain ⟨-, hnew, hmeans⟩ := (call.leads_run (w.after before)).ok reply next hrun
    refine ⟨hnew, ?_⟩
    rw [w.after_append, Workspace.after, List.foldl_cons, stateAfter_eq hrun]
    exact hmeans.keeps (next.keeps_after after)

/-- A context that has noted a placeholder for a name in one registry, while the placeholder means
    another name in another registry; then a path that fails at its second name, and a node under
    another prefix. -/
theorem means_after_of_shared_context :
    ((Workspace.after
      ⟨fun _ => .fresh, fun n => if n = 1 then [("#a", "b")] else [], fun _ => []⟩
      ([.ofName 0 0 (.text "") "a"] ++ .ofName 0 1 (.text "") "a" ::
        [.ofPath (some 0) 1 .null ("$.A." ++ String.ofList (List.replicate 256 'x')),
          .relead 0 (.text "a"), .ofNode (some 0) 1 1 .null ⟨"$.a[1]", .int 5⟩])).names 1).get?
      "#a1" = some "a" := by
  have hreply : (match (Call.ofName 0 1 (.text "") "a").run
      (Workspace.after
        ⟨fun _ => .fresh, fun n => if n = 1 then [("#a", "b")] else [], fun _ => []⟩
        [.ofName 0 0 (.text "") "a"]) with
      | .ok placeholder _ => some placeholder
      | .error _ _ => none : Option String) = some "#a1" := by decide +kernel
  split at hreply
  · rename_i placeholder next hrun
    obtain rfl : placeholder = "#a1" := Option.some.inj hreply
    exact ((Workspace.means_after _ _ _).2 (.ofName 0 1 (.text "") "a") "#a1" next hrun).2
  · cases hreply

end Keeping

end ItemDelta
