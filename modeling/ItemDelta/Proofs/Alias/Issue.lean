import ItemDelta.Proofs.Alias.Registration

/-!
# The placeholders that are issued

An aliased path registers its names one after the other, up to the first one that is refused, and
nothing else happens to the state but that, at its end, a value may be registered. So whatever a
registration keeps is kept by every path.

## Main definitions

* `AliasState.Registrations` — one state comes from another by registrations only.
* `AliasState.issue` — the placeholders that are issued for names in a row.
* `aliasedText` — the text of a path with placeholders in the place of its names.
* `IsAliased` — a text is that of a path, with placeholders that mean its names.

## Main results

* `AliasState.Registrations.grows` — registrations change no entry.
* `stateAfter_aliasPath`, `stateAfter_aliasNode` — what a path leaves, whether it fails or not.
* `exists_keys_of_aliasPath`, `exists_keys_of_aliasNode` — what is written if it does not fail.
* `nameAlias_registers`, `valueAlias_registers`, `aliasPath_registers`, `aliasNode_registers` — what
  is registered, and what it means.
-/

namespace ItemDelta

/-! ### Registrations -/

namespace AliasState

/-- One state comes from another by registrations of values, and of names that are not refused. A
    registration may fail, and what it has drawn is spent. -/
inductive Registrations : AliasState → AliasState → Prop where
  | refl (s : AliasState) : Registrations s s
  | name {s t : AliasState} {lead : Value} {name : String} : Registrations s t →
      checkLength name = .ok () → checkLead lead = .ok () →
      Registrations s (stateAfter (registerName lead name) t)
  | value {s t : AliasState} (parts : List (Option String)) (value : Value) :
      Registrations s t → Registrations s (stateAfter (registerValue parts value) t)

theorem Registrations.trans {s t u : AliasState} (h : Registrations s t)
    (h' : Registrations t u) : Registrations s u := by
  induction h' with
  | refl => exact h
  | name _ hlength hlead ih => exact .name ih hlength hlead
  | value parts value _ ih => exact .value parts value ih

instance : Std.Refl Registrations := ⟨.refl⟩

instance : IsTrans AliasState Registrations := ⟨fun _ _ _ => Registrations.trans⟩

theorem Registrations.grows {s t : AliasState} (h : Registrations s t) : s.Grows t := by
  induction h with
  | refl => exact Std.Refl.refl _
  | @name t lead name _ _ _ ih => exact ih.trans (t.leads_registerName lead name).stateAfter
  | @value t parts value _ ih => exact ih.trans (t.leads_registerValue parts value).stateAfter

/-! ### Names in a row -/

/-- The placeholders that are issued for names under a prefix, one after the other up to the first
    name that is refused, and the state then. -/
def issue (lead : Value) (state : AliasState) : List String → List NotedAlias × AliasState
  | [] => ([], state)
  | name :: names =>
    match nameAlias lead name state with
    | .ok placeholder next =>
      (⟨lead, name, placeholder⟩ :: (issue lead next names).1, (issue lead next names).2)
    | .error _ next => ([], next)

end AliasState

/-- A name that neither it nor its prefix is refused for is registered. -/
theorem nameAlias_eq {lead : Value} {name : String} (hlength : checkLength name = .ok ())
    (hlead : checkLead lead = .ok ()) (s : AliasState) :
    nameAlias lead name s = AliasState.registerName lead name s := by
  rw [nameAlias, ofExcept_bind_of_ok hlength, ofExcept_bind_of_ok hlead]

/-- A name is refused without a trace, or registered. -/
theorem nameAlias_cases (lead : Value) (name : String) (s : AliasState) :
    (∃ fault, nameAlias lead name s = .error fault s) ∨
      (checkLength name = .ok () ∧ checkLead lead = .ok () ∧
        nameAlias lead name s = AliasState.registerName lead name s) := by
  cases hlength : checkLength name with
  | error fault =>
    refine .inl ⟨fault, ?_⟩
    rw [nameAlias, ofExcept_bind_of_error hlength]
  | ok =>
    cases hlead : checkLead lead with
    | error fault =>
      refine .inl ⟨fault, ?_⟩
      rw [nameAlias, ofExcept_bind_of_ok hlength, ofExcept_bind_of_error hlead]
    | ok => exact .inr ⟨rfl, rfl, nameAlias_eq hlength hlead s⟩

theorem nameAlias_registers (lead : Value) (name : String) (s : AliasState) :
    Leads AliasState.Registrations (nameAlias lead name) s fun placeholder t =>
      t.names.get? placeholder = some name := by
  rcases nameAlias_cases lead name s with ⟨fault, hrun⟩ | ⟨hlength, hlead, hrun⟩
  · exact .of_error hrun (.refl s)
  · have hregister := AliasState.leads_registerName s lead name
    have hstate : stateAfter (nameAlias lead name) s =
        stateAfter (AliasState.registerName lead name) s := by rw [stateAfter, hrun, stateAfter]
    refine (Leads.of_stateAfter ?_).mono fun placeholder t _ heq =>
      (hregister.ok placeholder t (hrun.symm.trans heq)).2.1
    exact hstate ▸ .name (.refl s) hlength hlead

theorem valueAlias_registers (lead : Value) (keys : List Value) (value : Value) (s : AliasState) :
    Leads AliasState.Registrations (valueAlias lead keys value) s fun placeholder t =>
      s.values.get? placeholder = none ∧ t.values.get? placeholder = some value := by
  refine .bind (.ofExcept _) ?_
  rintro parts _ - ⟨rfl, -⟩
  refine (Leads.of_stateAfter (.value parts value (.refl _))).mono fun placeholder t _ hrun => ?_
  obtain ⟨-, hnew, hget, -⟩ := (AliasState.leads_registerValue _ parts value).ok placeholder t hrun
  exact ⟨hnew, hget⟩

namespace AliasState

variable (s : AliasState) (lead : Value)

/-- Of several names, the first is refused and nothing is issued, or it is registered and the others
    are next. -/
theorem issue_cons_cases (name : String) (names : List String) :
    (∃ t, s.Registrations t ∧ t.names = s.names ∧ t.values = s.values ∧
        s.issue lead (name :: names) = ([], t)) ∨
      (checkLength name = .ok () ∧ checkLead lead = .ok () ∧
        ∃ placeholder t, registerName lead name s = .ok placeholder t ∧
          s.issue lead (name :: names) =
            (⟨lead, name, placeholder⟩ :: (t.issue lead names).1, (t.issue lead names).2)) := by
  rw [issue]
  rcases nameAlias_cases lead name s with ⟨fault, hrun⟩ | ⟨hlength, hlead, hrun⟩
  · exact .inl ⟨s, .refl s, rfl, rfl, by rw [hrun]⟩
  · have hregistrations := Registrations.name (.refl s) hlength hlead
    rw [hrun]
    rw [stateAfter] at hregistrations
    generalize hregister : registerName lead name s = outcome at hregistrations
    cases AliasState.nameOutcome_of_eq hregister with
    | kept | issued => exact .inr ⟨hlength, hlead, _, _, rfl, rfl⟩
    | refused => exact .inl ⟨_, hregistrations, rfl, rfl, rfl⟩

variable {s lead} in
theorem registrations_of_ok {t : AliasState} {name placeholder : String}
    (hlength : checkLength name = .ok ()) (hlead : checkLead lead = .ok ())
    (hrun : registerName lead name s = .ok placeholder t) : s.Registrations t :=
  stateAfter_eq hrun ▸ .name (.refl s) hlength hlead

theorem values_issue (names : List String) : (s.issue lead names).2.values = s.values := by
  induction names generalizing s with
  | nil => rfl
  | cons name names ih =>
    rcases s.issue_cons_cases lead name names with
      ⟨t, -, -, hvalues, hissue⟩ | ⟨-, -, placeholder, t, hrun, hissue⟩
    · rw [hissue, hvalues]
    · rw [hissue, ih, (registries_of_registerName hrun).2]

theorem registrations_issue (names : List String) :
    Registrations s (s.issue lead names).2 := by
  induction names generalizing s with
  | nil => exact .refl s
  | cons name names ih =>
    rcases s.issue_cons_cases lead name names with
      ⟨t, hregistrations, -, -, hissue⟩ | ⟨hlength, hlead, placeholder, t, hrun, hissue⟩
    · rw [hissue]
      exact hregistrations
    · rw [hissue]
      exact (registrations_of_ok hlength hlead hrun).trans (ih t)

/-- Every placeholder that is issued stands for its name, and goes on doing so. -/
theorem get?_of_mem_issue {lead : Value} {names : List String} {noted : NotedAlias}
    (h : noted ∈ (s.issue lead names).1) :
    (s.issue lead names).2.names.get? noted.placeholder = some noted.name := by
  induction names generalizing s with
  | nil => cases h
  | cons name names ih =>
    rcases s.issue_cons_cases lead name names with
      ⟨t, -, -, -, hissue⟩ | ⟨-, -, placeholder, t, hrun, hissue⟩
    · rw [hissue] at h
      cases h
    · rw [hissue] at h ⊢
      rcases List.mem_cons.mp h with rfl | h
      · have hget := ((s.leads_registerName lead name).ok placeholder t hrun).2.1
        exact (registrations_issue t lead names).grows.names _ _ hget
      · exact ih t h

end AliasState

/-! ### Aliased paths -/

/-- The name that a key is, if it is one. -/
def Key.name? : Key → Option String
  | .name text => some text
  | .index _ => none

/-- The names on a path, from the root down. -/
def namesOf (keys : List Key) : List String := keys.filterMap Key.name?

theorem mem_of_mem_namesOf {keys : List Key} {name : String} (h : name ∈ namesOf keys) :
    Key.name name ∈ keys := by
  obtain ⟨key, hkey, hname⟩ := List.mem_filterMap.mp h
  cases key with
  | name text =>
    cases hname
    exact hkey
  | index position => cases hname

/-- The parts of a path behind those that are there: placeholders in the place of names, and
    subscripts behind what precedes them. -/
def aliasedParts (parts : List String) : List Key → List String → List String
  | [], _ => parts
  | .index position :: keys, placeholders =>
    aliasedParts (addSubscript (String.ofList (indexStep position)) parts) keys placeholders
  | .name _ :: keys, placeholder :: placeholders =>
    aliasedParts (parts ++ [placeholder]) keys placeholders
  | .name _ :: _, [] => parts

/-- The text of a path with placeholders in the place of its names. -/
def aliasedText (keys : List Key) (placeholders : List String) : String :=
  ".".intercalate (aliasedParts [] keys placeholders)

/-- The placeholders that are issued for the names on a path, and the state then. -/
def AliasState.issueAlong (lead : Value) (state : AliasState) (path : String) :
    List NotedAlias × AliasState :=
  match pathKeys path with
  | .ok keys => state.issue (effectiveLead lead state.context) (namesOf keys)
  | .error _ => ([], state)

namespace AliasState

/-- What is issued along a path is issued for some of its names: for all of them, or for none if the
    path cannot be read. -/
theorem exists_issueAlong_eq (s : AliasState) (lead : Value) (path : String) :
    ∃ names, s.issueAlong lead path = s.issue (effectiveLead lead s.context) names ∧
      ∀ name ∈ names, ∃ keys, pathKeys path = .ok keys ∧ name ∈ namesOf keys := by
  rw [issueAlong]
  cases hkeys : pathKeys path with
  | ok keys => exact ⟨namesOf keys, rfl, fun name hname => ⟨keys, rfl, hname⟩⟩
  | error fault => exact ⟨[], rfl, fun name hname => by cases hname⟩

theorem registrations_issueAlong (s : AliasState) (lead : Value) (path : String) :
    s.Registrations (s.issueAlong lead path).2 := by
  obtain ⟨names, heq, -⟩ := s.exists_issueAlong_eq lead path
  rw [heq]
  exact s.registrations_issue _ names

theorem values_issueAlong (s : AliasState) (lead : Value) (path : String) :
    (s.issueAlong lead path).2.values = s.values := by
  obtain ⟨names, heq, -⟩ := s.exists_issueAlong_eq lead path
  rw [heq, s.values_issue]

theorem get?_of_mem_issueAlong (s : AliasState) {lead : Value} {path : String}
    {noted : NotedAlias} (h : noted ∈ (s.issueAlong lead path).1) :
    (s.issueAlong lead path).2.names.get? noted.placeholder = some noted.name := by
  obtain ⟨names, heq, -⟩ := s.exists_issueAlong_eq lead path
  rw [heq] at h ⊢
  exact s.get?_of_mem_issue h

end AliasState

/-- A text is a path whose names are replaced by placeholders that mean them. -/
def IsAliased (names : Registry String) (path text : String) : Prop :=
  ∃ keys placeholders, pathKeys path = .ok keys ∧ text = aliasedText keys placeholders ∧
    List.Forall₂ (fun placeholder name => names.get? placeholder = some name) placeholders
      (namesOf keys)

section Paths

variable {s : AliasState} {lead : Value}

theorem stateAfter_aliasSegments (parts : List String) (segments : List Segment) :
    stateAfter (aliasSegments lead parts segments) s =
      (s.issue lead (namesOf (segments.map Segment.key))).2 := by
  induction segments generalizing s parts with
  | nil => rfl
  | cons segment segments ih =>
    rw [aliasSegments, List.map_cons]
    cases segment.key with
    | index position => exact ih _
    | name name =>
      rw [namesOf, List.filterMap_cons_some (by rfl), AliasState.issue, stateAfter_bind]
      cases nameAlias lead name s with
      | ok placeholder t => exact ih _
      | error fault t => rfl

theorem eq_aliasedParts_of_aliasSegments {parts spelled : List String} {segments : List Segment}
    {t : AliasState} (h : aliasSegments lead parts segments s = .ok spelled t) :
    (s.issue lead (namesOf (segments.map Segment.key))).1.map NotedAlias.name =
        namesOf (segments.map Segment.key) ∧
      spelled = aliasedParts parts (segments.map Segment.key)
        ((s.issue lead (namesOf (segments.map Segment.key))).1.map NotedAlias.placeholder) := by
  induction segments generalizing s parts with
  | nil =>
    cases h
    exact ⟨rfl, rfl⟩
  | cons segment segments ih =>
    rw [aliasSegments] at h
    rw [List.map_cons]
    cases hkey : segment.key with
    | index position =>
      rw [hkey] at h
      exact ih h
    | name name =>
      rw [hkey] at h
      obtain ⟨placeholder, u, hname, hrest⟩ := exists_ok_of_bind h
      obtain ⟨hnames, hspelled⟩ := ih hrest
      rw [namesOf, List.filterMap_cons_some (by rfl), AliasState.issue, hname, List.map_cons,
        List.map_cons, aliasedParts]
      exact ⟨congrArg (name :: ·) hnames, hspelled⟩

/-- An aliased path runs under the prefix that is effective at its start. -/
theorem aliasPath_eq (path : String) :
    aliasPath lead path s = (ofExcept (parsePath path) >>= fun segments =>
      aliasSegments (effectiveLead lead s.context) [] segments >>= fun parts =>
        pure (".".intercalate parts)) s := rfl

/-- Whether an aliased path fails or not, the names that are not refused are registered, and
    nothing else is. -/
theorem stateAfter_aliasPath (path : String) :
    stateAfter (aliasPath lead path) s = (s.issueAlong lead path).2 := by
  rw [stateAfter, aliasPath_eq, ← stateAfter, stateAfter_bind, AliasState.issueAlong, pathKeys]
  cases parsePath path with
  | error fault => rfl
  | ok segments =>
    refine Eq.trans ?_ (stateAfter_aliasSegments [] segments)
    exact stateAfter_bind_pure (aliasSegments (effectiveLead lead s.context) [] segments) _ s

theorem exists_keys_of_aliasPath {path text : String} {t : AliasState}
    (h : aliasPath lead path s = .ok text t) :
    ∃ keys, pathKeys path = .ok keys ∧
      (s.issueAlong lead path).1.map NotedAlias.name = namesOf keys ∧
      text = aliasedText keys ((s.issueAlong lead path).1.map NotedAlias.placeholder) := by
  rw [aliasPath_eq] at h
  obtain ⟨segments, hsegments, h⟩ := exists_ok_of_ofExcept_bind h
  obtain ⟨parts, u, hparts, h⟩ := exists_ok_of_bind h
  cases h
  obtain ⟨hnames, rfl⟩ := eq_aliasedParts_of_aliasSegments hparts
  have hkeys : pathKeys path = .ok (segments.map Segment.key) := by
    rw [pathKeys, hsegments]
    rfl
  rw [AliasState.issueAlong, hkeys]
  exact ⟨_, rfl, hnames, rfl⟩

theorem aliasNode_eq (node : Node) :
    aliasNode lead node s = (ofExcept (parsePath node.path) >>= fun segments =>
      aliasSegments (effectiveLead lead s.context) [] segments >>= fun parts =>
        ofExcept (effectiveLead lead s.context).writtenPart >>= fun first =>
          AliasState.registerValue (first :: segments.map fun segment => segment.key.part)
            node.value >>= fun placeholder => pure (".".intercalate parts, placeholder)) s := rfl

variable (s lead) in
/-- The value at the end of an aliased path is registered behind the names, or not at all. -/
theorem stateAfter_aliasNode (node : Node) :
    stateAfter (aliasNode lead node) s = (s.issueAlong lead node.path).2 ∨
      ∃ parts, stateAfter (aliasNode lead node) s =
        stateAfter (AliasState.registerValue parts node.value)
          (s.issueAlong lead node.path).2 := by
  rw [stateAfter, aliasNode_eq, ← stateAfter, stateAfter_bind, AliasState.issueAlong, pathKeys]
  cases parsePath node.path with
  | error fault => exact .inl rfl
  | ok segments =>
    have hnames : stateAfter (aliasSegments (effectiveLead lead s.context) [] segments) s = _ :=
      stateAfter_aliasSegments [] segments
    change stateAfter (aliasSegments (effectiveLead lead s.context) [] segments >>= _) s =
        (s.issue _ (namesOf (segments.map Segment.key))).2 ∨
      ∃ parts, stateAfter (aliasSegments (effectiveLead lead s.context) [] segments >>= _) s =
        stateAfter (AliasState.registerValue parts node.value)
          (s.issue _ (namesOf (segments.map Segment.key))).2
    rw [stateAfter_bind, ← hnames, stateAfter]
    cases aliasSegments (effectiveLead lead s.context) [] segments s with
    | error fault t => exact .inl rfl
    | ok parts t =>
      dsimp only
      rw [stateAfter_bind]
      cases (effectiveLead lead s.context).writtenPart with
      | error fault => exact .inl rfl
      | ok first => exact .inr ⟨_, stateAfter_bind_pure _ _ t⟩

theorem registrations_aliasNode (node : Node) :
    (s.issueAlong lead node.path).2.Registrations (stateAfter (aliasNode lead node) s) := by
  rcases stateAfter_aliasNode s lead node with heq | ⟨parts, heq⟩
  · exact heq ▸ .refl _
  · exact heq ▸ .value parts node.value (.refl _)

theorem exists_keys_of_aliasNode {node : Node} {texts : String × String} {t : AliasState}
    (h : aliasNode lead node s = .ok texts t) :
    ∃ keys parts, pathKeys node.path = .ok keys ∧
      (s.issueAlong lead node.path).1.map NotedAlias.name = namesOf keys ∧
      texts.1 = aliasedText keys ((s.issueAlong lead node.path).1.map NotedAlias.placeholder) ∧
      AliasState.registerValue parts node.value (s.issueAlong lead node.path).2 =
        .ok texts.2 t := by
  rw [aliasNode_eq] at h
  obtain ⟨segments, hsegments, h⟩ := exists_ok_of_ofExcept_bind h
  obtain ⟨parts, u, hparts, h⟩ := exists_ok_of_bind h
  obtain ⟨first, hfirst, h⟩ := exists_ok_of_ofExcept_bind h
  obtain ⟨placeholder, v, hvalue, h⟩ := exists_ok_of_bind h
  cases h
  obtain ⟨hnames, rfl⟩ := eq_aliasedParts_of_aliasSegments hparts
  have hstate := (stateAfter_eq hparts).symm.trans (stateAfter_aliasSegments [] segments)
  have hkeys : pathKeys node.path = .ok (segments.map Segment.key) := by
    rw [pathKeys, hsegments]
    rfl
  rw [AliasState.issueAlong, hkeys]
  refine ⟨_, first :: segments.map fun segment => segment.key.part, rfl, hnames, rfl, ?_⟩
  rw [← hstate]
  exact hvalue

/-- What is issued for the names on a path is what they are aliased by. -/
theorem isAliased_issueAlong {path text : String} {keys : List Key}
    (hkeys : pathKeys path = .ok keys)
    (hnames : (s.issueAlong lead path).1.map NotedAlias.name = namesOf keys)
    (htext : text = aliasedText keys ((s.issueAlong lead path).1.map NotedAlias.placeholder)) :
    IsAliased (s.issueAlong lead path).2.names path text := by
  refine ⟨keys, _, hkeys, htext, ?_⟩
  rw [← hnames, List.forall₂_map_left_iff, List.forall₂_map_right_iff, List.forall₂_same]
  exact fun noted hnoted => s.get?_of_mem_issueAlong hnoted

theorem aliasPath_registers (path : String) :
    Leads AliasState.Registrations (aliasPath lead path) s fun text t =>
      IsAliased t.names path text := by
  have hregistrations := s.registrations_issueAlong lead path
  rw [← stateAfter_aliasPath] at hregistrations
  refine (Leads.of_stateAfter hregistrations).mono fun text t _ hrun => ?_
  obtain ⟨keys, hkeys, hnames, htext⟩ := exists_keys_of_aliasPath hrun
  rw [← stateAfter_eq hrun, stateAfter_aliasPath]
  exact isAliased_issueAlong hkeys hnames htext

theorem aliasNode_registers (node : Node) :
    Leads AliasState.Registrations (aliasNode lead node) s fun texts t =>
      IsAliased t.names node.path texts.1 ∧ s.values.get? texts.2 = none ∧
        t.values.get? texts.2 = some node.value := by
  refine (Leads.of_stateAfter ((s.registrations_issueAlong lead node.path).trans
    (registrations_aliasNode node))).mono fun texts t _ hrun => ?_
  obtain ⟨keys, parts, hkeys, hnames, htext, hvalue⟩ := exists_keys_of_aliasNode hrun
  obtain ⟨hgrows, hnew, hget, -⟩ :=
    (AliasState.leads_registerValue _ parts node.value).ok _ t hvalue
  obtain ⟨_, placeholders, hkeys', htext', hmeans⟩ :=
    isAliased_issueAlong hkeys hnames htext
  rw [s.values_issueAlong lead node.path] at hnew
  exact ⟨⟨_, placeholders, hkeys', htext', hmeans.imp fun _ _ => hgrows.names _ _⟩, hnew, hget⟩

end Paths

end ItemDelta
