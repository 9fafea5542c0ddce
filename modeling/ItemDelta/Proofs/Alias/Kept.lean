import ItemDelta.Proofs.Alias.Issue

/-!
# Names that keep their placeholder

Once a placeholder is issued, the context has it noted for its name and prefix, and the registry
has it for its name. While that registry is the only one in use with the context, the two stay in
step: what is noted is free for its name, so it is never replaced, and whoever asks again is
answered without a change.

## Main definitions

* `AliasState.Keeps` — a placeholder is noted in the context and stands in the registry.

## Main results

* `AliasState.keeps_registerName` — the placeholder that is issued is kept.
* `AliasState.Keeps.registrations` — registrations keep what is kept.
* `AliasState.Keeps.nameAlias_unchanged` — asking again changes nothing.
-/

namespace ItemDelta

/-! ### Entries that are there already -/

theorem Registry.insert_of_get? {α : Type} {registry : Registry α} {placeholder : String}
    {meaning : α} (h : registry.get? placeholder = some meaning) :
    registry.insert placeholder meaning = registry := by
  induction registry with
  | nil => cases h
  | cons entry rest ih =>
    obtain ⟨p, m⟩ := entry
    rw [Registry.get?_cons] at h
    rw [Registry.insert]
    by_cases hp : placeholder = p
    · rw [if_pos hp] at h
      rw [if_pos hp.symm, hp, ← Option.some.inj h]
    · rw [if_neg hp] at h
      rw [if_neg (Ne.symm hp), ih h]

namespace NotedAlias

variable {lead other : Value} {name placeholder text : String} {aliases : List NotedAlias}

theorem isFor_self : (NotedAlias.mk lead name placeholder).isFor lead name = true := by
  rw [isFor, sameLead, Bool.and_eq_true, Bool.or_eq_true]
  exact ⟨.inr (decide_eq_true rfl), beq_iff_eq.mpr rfl⟩

theorem name_of_find? {noted : NotedAlias}
    (h : aliases.find? (·.isFor lead name) = some noted) : noted.name = name := by
  have hfor := List.find?_some h
  rw [isFor, Bool.and_eq_true] at hfor
  exact beq_iff_eq.mp hfor.2

theorem find?_insert_self :
    ((insert lead name placeholder aliases).find? (·.isFor lead name)).map (·.placeholder) =
      some placeholder := by
  induction aliases with
  | nil =>
    rw [insert, List.find?_cons, isFor_self]
    rfl
  | cons first rest ih =>
    rw [insert]
    cases hfirst : first.isFor lead name with
    | true =>
      have hreplaced : ({ first with placeholder } : NotedAlias).isFor lead name = true := hfirst
      rw [if_pos rfl, List.find?_cons, hreplaced]
      rfl
    | false =>
      rw [if_neg Bool.false_ne_true, List.find?_cons, hfirst]
      exact ih

/-- Another entry than the one that is replaced is still found. -/
theorem find?_insert {noted : NotedAlias} (hnoted : aliases.find? (·.isFor other text) = some noted)
    (hreplaced : ∀ former, aliases.find? (·.isFor lead name) = some former → former ≠ noted) :
    (insert lead name placeholder aliases).find? (·.isFor other text) = some noted := by
  induction aliases with
  | nil => cases hnoted
  | cons first rest ih =>
    rw [insert]
    rw [List.find?_cons] at hnoted
    cases hfirst : first.isFor lead name with
    | true =>
      have hne := hreplaced first (by rw [List.find?_cons, hfirst])
      cases hother : first.isFor other text with
      | true =>
        rw [hother] at hnoted
        exact absurd (Option.some.inj hnoted) hne
      | false =>
        have hkept : ({ first with placeholder } : NotedAlias).isFor other text = false := hother
        rw [hother] at hnoted
        rw [if_pos rfl, List.find?_cons, hkept]
        exact hnoted
    | false =>
      rw [if_neg Bool.false_ne_true, List.find?_cons]
      cases hother : first.isFor other text with
      | true =>
        rw [hother] at hnoted
        exact hnoted
      | false =>
        rw [hother] at hnoted
        refine ih hnoted fun former hformer => hreplaced former ?_
        rw [List.find?_cons, hfirst]
        exact hformer

end NotedAlias

/-! ### What is kept -/

namespace AliasState

/-- A name has a placeholder under a prefix: it is noted in the context, it stands in the registry
    of names, and neither the name nor the prefix is refused. -/
structure Keeps (s : AliasState) (noted : NotedAlias) : Prop where
  length : checkLength noted.name = .ok ()
  lead : checkLead noted.lead = .ok ()
  cached : s.context.alias? noted.lead noted.name = some noted.placeholder
  name : s.names.get? noted.placeholder = some noted.name

variable {s t : AliasState} {noted : NotedAlias}

theorem isFreeFor_of_get? {name placeholder : String}
    (h : s.names.get? placeholder = some name) : s.isFreeFor name placeholder = true := by
  rw [isFreeFor, h]
  exact beq_iff_eq.mpr rfl

/-- The placeholder that is issued for a name is kept. -/
theorem keeps_registerName {lead : Value} {name placeholder : String}
    (hlength : checkLength name = .ok ()) (hlead : checkLead lead = .ok ())
    (hrun : registerName lead name s = .ok placeholder t) :
    t.Keeps ⟨lead, name, placeholder⟩ := by
  refine ⟨hlength, hlead, ?_, ((s.leads_registerName lead name).ok placeholder t hrun).2.1⟩
  cases AliasState.nameOutcome_of_eq hrun with
  | kept halias _ => exact halias
  | issued => exact NotedAlias.find?_insert_self

/-- What is kept is not replaced: only a placeholder that is not free for its name is. -/
theorem Keeps.registerName (h : s.Keeps noted) (lead : Value) (name : String) :
    (stateAfter (AliasState.registerName lead name) s).Keeps noted := by
  refine ⟨h.length, h.lead, ?_, (s.leads_registerName lead name).stateAfter.names _ _ h.name⟩
  rw [stateAfter]
  generalize hrun : AliasState.registerName lead name s = outcome
  cases AliasState.nameOutcome_of_eq hrun with
  | kept | refused => exact h.cached
  | issued htaken =>
    -- The entry would be replaced only if its placeholder were taken by another name.
    obtain ⟨entry, hentry, hplaceholder⟩ := Option.map_eq_some_iff.mp h.cached
    refine Option.map_eq_some_iff.mpr ⟨entry, NotedAlias.find?_insert hentry ?_, hplaceholder⟩
    rintro former hformer rfl
    have hname : noted.name = name :=
      (NotedAlias.name_of_find? hentry).symm.trans (NotedAlias.name_of_find? hformer)
    have hfree := htaken noted.placeholder
      (Option.map_eq_some_iff.mpr ⟨former, hformer, hplaceholder⟩)
    rw [isFreeFor_of_get? (hname ▸ h.name)] at hfree
    cases hfree

theorem Keeps.registerValue (h : s.Keeps noted) (parts : List (Option String)) (value : Value) :
    (stateAfter (AliasState.registerValue parts value) s).Keeps noted := by
  rw [stateAfter]
  generalize hrun : AliasState.registerValue parts value s = outcome
  cases AliasState.valueOutcome_of_eq hrun with
  | issued | refused => exact ⟨h.length, h.lead, h.cached, h.name⟩

/-- Registrations keep what is kept. -/
theorem Keeps.registrations (h : s.Keeps noted) (hregistrations : s.Registrations t) :
    t.Keeps noted := by
  induction hregistrations with
  | refl => exact h
  | name _ _ _ ih => exact ih.registerName _ _
  | value parts value _ ih => exact ih.registerValue parts value

/-- Whoever asks again for a placeholder that is kept is answered without a change. -/
theorem Keeps.nameAlias_unchanged (h : s.Keeps noted) :
    nameAlias noted.lead noted.name s = .ok noted.placeholder s := by
  have hfree : s.isFreeFor noted.name noted.placeholder = true := isFreeFor_of_get? h.name
  rw [nameAlias_eq h.length h.lead, AliasState.registerName,
    bind_of_ok (placeholderFor_of_isFreeFor h.cached hfree)]
  change EStateM.Result.ok noted.placeholder
    { s with names := s.names.insert noted.placeholder noted.name } = _
  rw [Registry.insert_of_get? h.name]

/-- All placeholders that are issued are kept. -/
theorem keeps_of_mem_issue {lead : Value} {names : List String}
    (h : noted ∈ (s.issue lead names).1) : (s.issue lead names).2.Keeps noted := by
  induction names generalizing s with
  | nil => cases h
  | cons name names ih =>
    rcases s.issue_cons_cases lead name names with
      ⟨t, -, -, -, hissue⟩ | ⟨hlength, hlead, placeholder, t, hrun, hissue⟩
    · rw [hissue] at h
      cases h
    · rw [hissue] at h ⊢
      rcases List.mem_cons.mp h with rfl | h
      · exact (keeps_registerName hlength hlead hrun).registrations
          (registrations_issue t lead names)
      · exact ih h

theorem keeps_of_mem_issueAlong {lead : Value} {path : String}
    (h : noted ∈ (s.issueAlong lead path).1) : (s.issueAlong lead path).2.Keeps noted := by
  obtain ⟨names, heq, -⟩ := s.exists_issueAlong_eq lead path
  rw [heq] at h ⊢
  exact keeps_of_mem_issue h

end AliasState

end ItemDelta
