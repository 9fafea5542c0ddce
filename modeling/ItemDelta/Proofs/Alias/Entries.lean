import ItemDelta.Proofs.Alias.Issue

/-!
# The entries of the registries

Every entry has come into its registry by a registration. So in registries that were filled from
the start, each placeholder is of its kind, and no longer than the store takes, and neither is a
name. A name that is in the registry now and was not before is one of those on the path that was
aliased.

## Main definitions

* `AliasState.IsShaped` — the placeholders in the registries are placeholders, and the names are not
  too long.
* `AliasState.Admits` — from one state to another, only names of some kind are registered.

## Main results

* `AliasState.Registrations.isShaped` — registrations keep the registries in shape.
* `AliasState.admits_issueAlong` — the names on a path are all that is registered along it.
-/

namespace ItemDelta

theorem Registry.mem_insert {α : Type} {registry : Registry α} {placeholder : String} {meaning : α}
    {entry : String × α} (h : entry ∈ registry.insert placeholder meaning) :
    entry = (placeholder, meaning) ∨ entry ∈ registry := by
  induction registry with
  | nil => exact .inl (List.mem_singleton.mp h)
  | cons first rest ih =>
    rw [insert] at h
    split at h
    · exact (List.mem_cons.mp h).imp_right (List.mem_cons_of_mem first)
    · rcases List.mem_cons.mp h with rfl | h
      · exact .inr List.mem_cons_self
      · exact (ih h).imp_right (List.mem_cons_of_mem first)

theorem length_le_of_checkLength {name : String} (h : checkLength name = .ok ()) :
    name.length ≤ maxNameLength := by
  rw [checkLength] at h
  split at h
  · cases h
  · rename_i hfits
    exact Nat.not_lt.mp hfits

namespace AliasState

variable {s t : AliasState}

/-- As long as the counter leaves room for suffixes, all that is registered is registered under
    placeholders of its kind, and no name is too long. -/
structure IsShaped (s : AliasState) : Prop where
  sound : s.context.IsSound
  names : s.context.counter < counterLimit → ∀ entry ∈ s.names,
    IsPlaceholder nameSigil entry.1 ∧ entry.2.length ≤ maxNameLength
  values : s.context.counter < counterLimit → ∀ entry ∈ s.values,
    IsPlaceholder valueSigil entry.1

theorem isShaped_start {context : AliasContext} (h : context.IsSound) :
    (start context).IsShaped where
  sound := h
  names _ entry hentry := by cases hentry
  values _ entry hentry := by cases hentry

/-- Numbers that are drawn leave the registries in shape. -/
theorem IsShaped.advance (h : s.IsShaped) (drawn : Nat) :
    IsShaped { s with context := s.context.advance drawn } := by
  have hbefore : s.context.counter + drawn < counterLimit → s.context.counter < counterLimit :=
    fun hlimit => by omega
  exact ⟨h.sound.advance drawn, fun hlimit => h.names (hbefore hlimit),
    fun hlimit => h.values (hbefore hlimit)⟩

theorem IsShaped.registerName (h : s.IsShaped) (lead : Value) {name : String}
    (hname : name.length ≤ maxNameLength) :
    (stateAfter (AliasState.registerName lead name) s).IsShaped := by
  rw [stateAfter]
  generalize hrun : AliasState.registerName lead name s = outcome
  cases AliasState.nameOutcome_of_eq hrun with
  | kept halias _ =>
    refine ⟨h.sound, fun hlimit entry hentry => ?_, h.values⟩
    rcases Registry.mem_insert hentry with rfl | hentry
    · exact ⟨h.sound.alias? hlimit halias, hname⟩
    · exact h.names hlimit entry hentry
  | @issued placeholder drawn _ _ _ hshape =>
    have hdrawn := h.advance drawn
    have hshape := hshape h.sound.natural
    refine ⟨hdrawn.sound.noteAlias hshape, fun hlimit entry hentry => ?_, hdrawn.values⟩
    -- The new entry has a placeholder in shape now, and the old ones had theirs before.
    rcases Registry.mem_insert hentry with rfl | hentry
    · exact ⟨hshape hlimit, hname⟩
    · exact hdrawn.names hlimit entry hentry
  | @refused drawn _ _ => exact h.advance drawn

theorem IsShaped.registerValue (h : s.IsShaped) (parts : List (Option String)) (value : Value) :
    (stateAfter (AliasState.registerValue parts value) s).IsShaped := by
  rw [stateAfter]
  generalize hrun : AliasState.registerValue parts value s = outcome
  cases AliasState.valueOutcome_of_eq hrun with
  | @issued placeholder drawn _ _ hshape =>
    have hdrawn := h.advance drawn
    refine ⟨hdrawn.sound, hdrawn.names, fun hlimit entry hentry => ?_⟩
    rcases Registry.mem_insert hentry with rfl | hentry
    · exact hshape h.sound.natural hlimit
    · exact hdrawn.values hlimit entry hentry
  | @refused drawn _ _ => exact h.advance drawn

theorem Registrations.isShaped (h : s.Registrations t) (hs : s.IsShaped) : t.IsShaped := by
  induction h with
  | refl => exact hs
  | @name t lead name _ hlength _ ih =>
    exact ih.registerName lead (length_le_of_checkLength hlength)
  | @value t parts value _ ih => exact ih.registerValue parts value

/-! ### Names on paths -/

/-- From one state to another, only names of some kind are registered. -/
def Admits (allowed : String → Prop) (s t : AliasState) : Prop :=
  ∀ entry ∈ t.names, entry ∈ s.names ∨ allowed entry.2

variable {allowed : String → Prop}

instance : Std.Refl (Admits allowed) := ⟨fun _ _ h => .inl h⟩

instance : IsTrans AliasState (Admits allowed) :=
  ⟨fun _ _ _ h h' entry hentry => (h' entry hentry).elim (h entry) .inr⟩

theorem admits_registerValue (s : AliasState) (parts : List (Option String)) (value : Value) :
    s.Admits allowed (stateAfter (registerValue parts value) s) := by
  rw [stateAfter]
  generalize hrun : registerValue parts value s = outcome
  cases valueOutcome_of_eq hrun with
  | issued | refused => exact fun entry hentry => .inl hentry

theorem admits_issue (s : AliasState) (lead : Value) {names : List String}
    (h : ∀ name ∈ names, allowed name) : s.Admits allowed (s.issue lead names).2 := by
  induction names generalizing s with
  | nil => exact fun entry hentry => .inl hentry
  | cons name names ih =>
    rcases s.issue_cons_cases lead name names with
      ⟨t, -, hnames, -, hissue⟩ | ⟨-, -, placeholder, t, hrun, hissue⟩
    · rw [hissue]
      exact fun entry hentry => .inl (hnames ▸ hentry)
    · rw [hissue]
      intro entry hentry
      rcases ih t (fun other hother => h other (.tail _ hother)) entry hentry with hentry | hentry
      · rw [(registries_of_registerName hrun).1] at hentry
        rcases Registry.mem_insert hentry with rfl | hentry
        · exact .inr (h name List.mem_cons_self)
        · exact .inl hentry
      · exact .inr hentry

/-- The names on a path are all that is registered along it. -/
theorem admits_issueAlong (s : AliasState) (lead : Value) {path : String}
    (h : ∀ keys, pathKeys path = .ok keys → ∀ name ∈ namesOf keys, allowed name) :
    s.Admits allowed (s.issueAlong lead path).2 := by
  obtain ⟨names, heq, hnames⟩ := s.exists_issueAlong_eq lead path
  rw [heq]
  refine s.admits_issue _ fun name hname => ?_
  obtain ⟨keys, hkeys, hmem⟩ := hnames name hname
  exact h keys hkeys name hmem

end AliasState

end ItemDelta
