import ItemDelta.Proofs.Alias.Registration

/-!
# The prefix of a context

The prefix of a context is read only where no other one is asked for. So what is registered under
the empty prefix, whatever the context says, is just what is registered in a context without one.

## Main definitions

* `AliasContext.unled`, `AliasState.unled` — the same without a prefix.

## Main results

* `parallel_registerName`, `parallel_registerValue` — a registration does not look at the prefix.
* `parallel_aliasPath`, `parallel_aliasNode` — nor does an aliased path under the empty prefix.
-/

namespace ItemDelta

/-- A context without its prefix. -/
def AliasContext.unled (context : AliasContext) : AliasContext := { context with lead := .null }

/-- A context without its prefix, with the same registries. -/
def AliasState.unled (state : AliasState) : AliasState :=
  { state with context := state.context.unled }

/-! ### Numbers -/

theorem parallel_nextSuffix :
    Parallel (fun c d => d = AliasContext.unled c) AliasContext.nextSuffix
      AliasContext.nextSuffix := by
  rintro context _ rfl
  rw [AliasContext.nextSuffix, AliasContext.nextSuffix]
  change SameOutcome _ _ (if isLongInteger context.counter then _ else _)
  split
  · exact .error _ rfl
  · exact .ok _ rfl

theorem parallel_cutName (name : String) (limit : Int) :
    Parallel (fun c d => d = AliasContext.unled c) (cutName name limit) (cutName name limit) := by
  rw [cutName]
  split
  · exact .pure name
  · exact .bind parallel_nextSuffix fun suffix => .pure _

theorem parallel_firstFree (isFree : String → Bool) (base : String) (draws : Nat)
    (candidate : String) :
    Parallel (fun c d => d = AliasContext.unled c) (firstFree isFree base draws candidate)
      (firstFree isFree base draws candidate) := by
  induction draws generalizing candidate with
  | zero => exact .pure candidate
  | succ draws ih =>
    rw [firstFree]
    split
    · exact .pure candidate
    · exact .bind parallel_nextSuffix fun suffix => ih _

theorem parallel_freePlaceholder (sigil : Char) (parts : List (Option String)) (default : String)
    (isFree : String → Bool) (entries : Nat) :
    Parallel (fun c d => d = AliasContext.unled c)
      (freePlaceholder sigil parts default isFree entries)
      (freePlaceholder sigil parts default isFree entries) :=
  .bind (parallel_cutName _ _) fun _ => parallel_firstFree isFree _ _ _

/-! ### Registrations -/

/-- What is drawn without a look at the prefix is drawn alike where there is none. -/
theorem parallel_drawing {α : Type} {action : Drawing α}
    (h : Parallel (fun c d => d = AliasContext.unled c) action action) :
    Parallel (fun s t => t = AliasState.unled s) (AliasState.drawing action)
      (AliasState.drawing action) := by
  rintro s _ rfl
  have houtcome := h s.context s.context.unled rfl
  generalize hrun : action s.context = outcome, hother : action s.context.unled = other at houtcome
  cases houtcome with
  | ok result hrelated =>
    rw [AliasState.drawing_of_ok hrun, AliasState.drawing_of_ok hother]
    exact .ok result (hrelated ▸ rfl)
  | error fault hrelated =>
    rw [AliasState.drawing_of_error hrun, AliasState.drawing_of_error hother]
    exact .error fault (hrelated ▸ rfl)

theorem parallel_newNameAlias (state : AliasState) (lead : Value) (name : String) :
    Parallel (fun c d => d = AliasContext.unled c) (state.newNameAlias lead name)
      (state.newNameAlias lead name) := by
  refine .bind (parallel_freePlaceholder _ _ _ _ _) fun placeholder => ?_
  refine .bind (.modifyGet ?_) fun _ => .pure placeholder
  rintro context _ rfl
  exact ⟨rfl, rfl⟩

theorem parallel_placeholderFor (lead : Value) (name : String) :
    Parallel (fun s t => t = AliasState.unled s) (AliasState.placeholderFor lead name)
      (AliasState.placeholderFor lead name) := by
  refine .get ?_
  rintro s _ rfl
  have hnew := parallel_drawing (parallel_newNameAlias s lead name) s s.unled rfl
  have halias : s.unled.context.alias? lead name = s.context.alias? lead name := rfl
  have hfree : s.unled.isFreeFor name = s.isFreeFor name := rfl
  rw [halias, hfree]
  cases s.context.alias? lead name with
  | none => exact hnew
  | some placeholder =>
    dsimp only
    split
    · exact .ok placeholder rfl
    · exact hnew

theorem parallel_registerName (lead : Value) (name : String) :
    Parallel (fun s t => t = AliasState.unled s) (AliasState.registerName lead name)
      (AliasState.registerName lead name) := by
  refine .bind (parallel_placeholderFor lead name) fun placeholder => ?_
  refine .bind (.modifyGet ?_) fun _ => .pure placeholder
  rintro s _ rfl
  exact ⟨rfl, rfl⟩

theorem parallel_registerValue (parts : List (Option String)) (value : Value) :
    Parallel (fun s t => t = AliasState.unled s) (AliasState.registerValue parts value)
      (AliasState.registerValue parts value) := by
  refine .get ?_
  rintro s _ rfl
  refine Parallel.bind (parallel_drawing (parallel_freePlaceholder valueSigil parts "value"
    s.isFreeForValue s.values.length)) (fun placeholder => ?_) s s.unled rfl
  refine .bind (.modifyGet ?_) fun _ => .pure placeholder
  rintro s _ rfl
  exact ⟨rfl, rfl⟩

/-! ### Aliased paths -/

theorem parallel_nameAlias (lead : Value) (name : String) :
    Parallel (fun s t => t = AliasState.unled s) (nameAlias lead name) (nameAlias lead name) :=
  .bind (.ofExcept _) fun _ => .bind (.ofExcept _) fun _ => parallel_registerName lead name

theorem parallel_aliasSegments (lead : Value) (parts : List String) (segments : List Segment) :
    Parallel (fun s t => t = AliasState.unled s) (aliasSegments lead parts segments)
      (aliasSegments lead parts segments) := by
  induction segments generalizing parts with
  | nil => exact .pure parts
  | cons segment segments ih =>
    rw [aliasSegments]
    cases segment.key with
    | index position => exact ih _
    | name name => exact .bind (parallel_nameAlias lead name) fun placeholder => ih _

theorem parallel_aliasPath (path : String) :
    Parallel (fun s t => t = AliasState.unled s) (aliasPath (.text "") path)
      (aliasPath .null path) := by
  refine .get ?_
  rintro s _ rfl
  refine Parallel.bind (.ofExcept _) (fun segments => ?_) s _ rfl
  exact .bind (parallel_aliasSegments _ [] segments) fun parts => .pure _

theorem parallel_aliasNode (node : Node) :
    Parallel (fun s t => t = AliasState.unled s) (aliasNode (.text "") node)
      (aliasNode .null node) := by
  refine .get ?_
  rintro s _ rfl
  refine Parallel.bind (.ofExcept _) (fun segments => ?_) s _ rfl
  refine .bind (parallel_aliasSegments _ [] segments) fun parts => ?_
  exact .bind (.ofExcept _) fun first =>
    .bind (parallel_registerValue _ node.value) fun placeholder => .pure _

end ItemDelta
