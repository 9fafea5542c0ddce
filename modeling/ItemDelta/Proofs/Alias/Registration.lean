import ItemDelta.Proofs.Alias.Search
import ItemDelta.Proofs.Text.Words

/-!
# What registrations keep

A registration adds to the registries and changes no entry, since a placeholder is registered only
where it is free. Its placeholder is a sigil with plain characters behind it, and no longer than the
store takes, as long as the counter does not have so many digits that a suffix displaces the sigil.

## Main definitions

* `IsBase`, `IsPlaceholder` — plain characters, and a sigil in front of them.
* `AliasContext.IsSound` — the counter is natural and all noted placeholders are placeholders.
* `AliasState.NameOutcome`, `AliasState.ValueOutcome` — what a registration can come to.
* `AliasState.Grows` — no entry of the registries changes from one state to another.
* `Spells` — the parts of an aliased path spell out its keys.

## Main results

* `AliasState.nameOutcome_of_eq`, `AliasState.valueOutcome_of_eq` — a registration comes to nothing
  else.
* `AliasState.leads_registerName`, `AliasState.leads_registerValue` — it changes no entry.
* `leads_aliasPath`, `leads_aliasNode` — the placeholders of a path and of its value mean these.
-/

namespace ItemDelta

/-! ### Registries -/

namespace Registry

variable {α : Type} {registry : Registry α} {placeholder other : String} {meaning : α}

theorem get?_cons (entry : String × α) :
    get? (entry :: registry) placeholder =
      if placeholder = entry.1 then some entry.2 else registry.get? placeholder := by
  obtain ⟨p, m⟩ := entry
  rw [get?, List.lookup_cons]
  by_cases h : placeholder = p
  · rw [if_pos h, beq_iff_eq.mpr h]
  · rw [if_neg h, beq_false_of_ne h, get?]

theorem get?_insert_self :
    (registry.insert placeholder meaning).get? placeholder = some meaning := by
  induction registry with
  | nil => rw [insert, get?_cons, if_pos rfl]
  | cons entry rest ih =>
    obtain ⟨p, m⟩ := entry
    rw [insert]
    by_cases hp : p = placeholder
    · rw [if_pos hp, get?_cons, if_pos rfl]
    · rw [if_neg hp, get?_cons, if_neg (Ne.symm hp), ih]

theorem get?_insert_of_ne (h : other ≠ placeholder) :
    (registry.insert placeholder meaning).get? other = registry.get? other := by
  induction registry with
  | nil => rw [insert, get?_cons, if_neg h]
  | cons entry rest ih =>
    obtain ⟨p, m⟩ := entry
    rw [insert]
    by_cases hp : p = placeholder
    · rw [if_pos hp, get?_cons, get?_cons, if_neg h, if_neg (hp ▸ h)]
    · rw [if_neg hp, get?_cons, get?_cons, ih]

end Registry

/-! ### The shape of placeholders -/

/-- Numbers below this one leave room for the sigil in front of them. -/
def counterLimit : Nat := Nat.pow 10 250

/-- What stands behind a sigil: plain characters, one of them at least, and so few that the sigil
    finds room in front of them. -/
structure IsBase (text : List Char) : Prop where
  plain : ∀ c ∈ text, isPlain c = true
  ne_nil : text ≠ []
  length_le : text.length ≤ maxNameLength - 1

/-- A sigil with plain characters behind it. -/
def IsPlaceholder (sigil : Char) (text : String) : Prop :=
  ∃ rest, text.toList = sigil :: rest ∧ IsBase rest

theorem length_integerText_le {n : Int} (hpos : 0 ≤ n) (hlt : n < counterLimit) :
    (integerText n).length ≤ 250 := by
  rw [length_integerText, integerDigits_of_nonneg hpos]
  have hlt : n.toNat < Nat.pow 10 250 := (Int.toNat_lt hpos).mpr hlt
  exact (Nat.length_toDigits_le_iff (by decide) (by decide)).mpr hlt

theorem length_integerText_pos {n : Int} (hpos : 0 ≤ n) : 0 < (integerText n).length := by
  rw [length_integerText, integerDigits_of_nonneg hpos]
  exact Nat.length_toDigits_pos

theorem isPlain_integerText {n : Int} (h : 0 ≤ n) :
    ∀ c ∈ (integerText n).toList, isPlain c = true := by
  intro c hc
  rw [integerText, String.toList_ofList, integerDigits_of_nonneg h] at hc
  exact isPlain_of_isDigit (isDigit_of_mem_decimalDigits hc)

/-- A text that is cut so that a number finds room behind it. -/
theorem isBase_take_append {text : List Char} {number : Int}
    (htext : ∀ c ∈ text, isPlain c = true) (hpos : 0 ≤ number) (hlt : number < counterLimit) :
    IsBase (text.take (maxNameLength - 1 - (integerText number).length) ++
      (integerText number).toList) := by
  have hle := length_integerText_le hpos hlt
  have hdigits := length_integerText_pos hpos
  constructor
  · intro c hc
    rcases List.mem_append.mp hc with hc | hc
    · exact htext c (List.mem_of_mem_take hc)
    · exact isPlain_integerText hpos c hc
  · rw [← List.length_pos_iff, List.length_append, String.length_toList]
    omega
  · have htake := List.length_take_le (maxNameLength - 1 - (integerText number).length) text
    rw [List.length_append, String.length_toList, maxNameLength] at *
    omega

theorem isPlain_baseName (parts : List (Option String)) {default : String}
    (hdefault : ∀ c ∈ default.toList, isPlain c = true) :
    ∀ c ∈ (baseName parts default).toList, isPlain c = true := by
  intro c hc
  rw [baseName] at hc
  split at hc
  · exact hdefault c hc
  · rw [String.toList_ofList] at hc
    exact isPlain_camelCase _ c hc

theorem baseName_ne_nil (parts : List (Option String)) {default : String}
    (hdefault : default.toList ≠ []) : (baseName parts default).toList ≠ [] := by
  rw [baseName]
  split
  · exact hdefault
  · rename_i hfilled
    rw [String.toList_ofList]
    exact fun hnil => hfilled (List.isEmpty_iff.mpr hnil)

namespace IsPlaceholder

theorem of_isBase (sigil : Char) {base : String} (h : IsBase base.toList) :
    IsPlaceholder sigil (sigil.toString ++ base) := by
  refine ⟨base.toList, ?_, h⟩
  rw [String.toList_append, Char.toString, String.toList_singleton]
  rfl

theorem suffixed {sigil : Char} {base : String} (h : IsPlaceholder sigil base) {number : Int}
    (hpos : 0 ≤ number) (hlt : number < counterLimit) :
    IsPlaceholder sigil (suffixed base number) := by
  obtain ⟨rest, hrest, hbase⟩ := h
  -- The number is short enough for the cut to leave the sigil.
  have hlength := length_integerText_le hpos hlt
  have hroom : (maxNameLength : Int) - ((integerText number).length : Nat) =
      ((maxNameLength - 1 - (integerText number).length + 1 : Nat) : Int) := by
    rw [maxNameLength]
    omega
  refine ⟨rest.take (maxNameLength - 1 - (integerText number).length) ++
    (integerText number).toList, ?_, isBase_take_append hbase.plain hpos hlt⟩
  rw [ItemDelta.suffixed, toList_withSuffix, firstCharacters, hroom,
    if_pos (Int.natCast_nonneg _), Int.toNat_natCast, hrest, List.take_succ_cons,
    List.cons_append]

theorem candidate {sigil : Char} {base : String} (h : IsPlaceholder sigil base) {counter : Int}
    {drawn : Nat} (hpos : 0 ≤ counter) (hlt : counter + drawn < counterLimit) :
    IsPlaceholder sigil (candidate base counter drawn) := by
  cases drawn with
  | zero => exact h
  | succ drawn => exact h.suffixed (by omega) (by omega)

end IsPlaceholder

/-- Cutting a name draws one number at most, and leaves what can stand behind a sigil. -/
theorem draws_cutName (name : String) (context : AliasContext) :
    Draws (cutName name maxBaseLength) context 1 fun base drawn =>
      (∀ c ∈ name.toList, isPlain c = true) → name.toList ≠ [] → 0 ≤ context.counter →
        context.counter + drawn < counterLimit → IsBase base.toList := by
  rw [cutName]
  -- Only a name that is cut draws a number, and what is kept of it leaves room for that.
  split
  · rename_i hfits
    refine .pure fun hname hne _ _ => ⟨hname, hne, ?_⟩
    rw [maxBaseLength] at hfits
    rw [String.length_toList, maxNameLength]
    omega
  · refine Draws.nextSuffix.bind_pure _ ?_
    rintro suffix _ ⟨rfl, rfl⟩ hname - hpos hlt
    have hnumber : context.counter < counterLimit := by omega
    have hlength := length_integerText_le hpos hnumber
    have hroom : maxBaseLength - ((integerText context.counter).length : Nat) =
        ((maxNameLength - 1 - (integerText context.counter).length : Nat) : Int) := by
      rw [maxBaseLength, maxNameLength]
      omega
    rw [toList_withSuffix, firstCharacters, hroom, if_pos (Int.natCast_nonneg _),
      Int.toNat_natCast]
    exact isBase_take_append hname hpos hnumber

/-- A new placeholder is free, and it is one while the counter leaves room for suffixes. -/
theorem draws_freePlaceholder {isFree : String → Bool} {taken : List String}
    (htaken : ∀ text, isFree text = false → text ∈ taken) (sigil : Char)
    (parts : List (Option String)) {default : String}
    (hdefault : ∀ c ∈ default.toList, isPlain c = true) (hne : default.toList ≠ [])
    (context : AliasContext) :
    Draws (freePlaceholder sigil parts default isFree taken.length) context
      (1 + drawLimit taken.length) fun placeholder drawn => isFree placeholder = true ∧
        (0 ≤ context.counter → context.counter + drawn < counterLimit →
          IsPlaceholder sigil placeholder) := by
  -- Both the cut and the search draw numbers.
  refine .bind (draws_cutName _ context) fun base cut hbase => ?_
  refine (draws_freeCandidate htaken _ _).mono fun placeholder drawn ⟨hcandidate, hfree⟩ =>
    ⟨hfree, fun hpos hlt => ?_⟩
  have hbase := hbase (isPlain_baseName parts hdefault) (baseName_ne_nil parts hne) hpos (by omega)
  rw [hcandidate, AliasContext.counter_advance]
  exact (IsPlaceholder.of_isBase sigil hbase).candidate (by omega) (by omega)

/-! ### Sound contexts -/

/-- The counter of a context is natural and, as long as it leaves room for suffixes, everything
    noted in the context is a placeholder. -/
structure AliasContext.IsSound (context : AliasContext) : Prop where
  natural : 0 ≤ context.counter
  shaped : context.counter < counterLimit →
    ∀ noted ∈ context.aliases, IsPlaceholder nameSigil noted.placeholder

theorem mem_noted_insert {lead : Value} {name placeholder : String} {aliases : List NotedAlias}
    {noted : NotedAlias} (h : noted ∈ NotedAlias.insert lead name placeholder aliases) :
    noted.placeholder = placeholder ∨ noted ∈ aliases := by
  induction aliases with
  | nil =>
    rw [NotedAlias.insert, List.mem_singleton] at h
    exact .inl (by rw [h])
  | cons first rest ih =>
    rw [NotedAlias.insert] at h
    split at h
    · rcases List.mem_cons.mp h with rfl | h
      · exact .inl rfl
      · exact .inr (List.mem_cons_of_mem _ h)
    · rcases List.mem_cons.mp h with rfl | h
      · exact .inr List.mem_cons_self
      · exact (ih h).imp_right (List.mem_cons_of_mem _)

namespace AliasContext.IsSound

variable {context : AliasContext}

theorem advance (h : context.IsSound) (drawn : Nat) : (context.advance drawn).IsSound where
  natural := Int.add_nonneg h.natural (Int.natCast_nonneg drawn)
  shaped hlimit := h.shaped (Int.lt_of_le_of_lt (Int.le_add_of_nonneg_right
    (Int.natCast_nonneg drawn)) hlimit)

theorem noteAlias (h : context.IsSound) {lead : Value} {name placeholder : String}
    (hshape : context.counter < counterLimit → IsPlaceholder nameSigil placeholder) :
    (context.noteAlias lead name placeholder).IsSound where
  natural := h.natural
  shaped hlimit noted hnoted := by
    rcases mem_noted_insert hnoted with heq | hnoted
    · rw [heq]
      exact hshape hlimit
    · exact h.shaped hlimit noted hnoted

theorem alias? (h : context.IsSound) (hlimit : context.counter < counterLimit) {lead : Value}
    {name placeholder : String} (halias : context.alias? lead name = some placeholder) :
    IsPlaceholder nameSigil placeholder := by
  rw [AliasContext.alias?, Option.map_eq_some_iff] at halias
  obtain ⟨noted, hnoted, rfl⟩ := halias
  exact h.shaped hlimit noted (List.mem_of_find?_eq_some hnoted)

end AliasContext.IsSound

/-! ### One registration -/

namespace AliasState

variable {state : AliasState} {lead : Value} {name : String}

/-- What the registration of a name comes to. A placeholder that is noted for the name is kept while
    it is free for it, and replaced by a new one otherwise. If that cannot be made, for a number
    that is too long to be written, nothing is noted and registered. -/
inductive NameOutcome (state : AliasState) (lead : Value) (name : String) :
    EStateM.Result Error AliasState String → Prop where
  | kept {placeholder : String} :
      state.context.alias? lead name = some placeholder →
      state.isFreeFor name placeholder = true →
      NameOutcome state lead name
        (.ok placeholder { state with names := state.names.insert placeholder name })
  | issued {placeholder : String} {drawn : Nat} :
      (∀ noted, state.context.alias? lead name = some noted →
        state.isFreeFor name noted = false) →
      drawn ≤ 1 + drawLimit (state.names.length + state.taken.length) →
      state.isFreeFor name placeholder = true →
      (0 ≤ state.context.counter → state.context.counter + drawn < counterLimit →
        IsPlaceholder nameSigil placeholder) →
      NameOutcome state lead name (.ok placeholder
        { state with
          context := (state.context.advance drawn).noteAlias lead name placeholder
          names := state.names.insert placeholder name })
  | refused {drawn : Nat} :
      drawn ≤ 1 + drawLimit (state.names.length + state.taken.length) →
      isLongInteger (state.context.counter + drawn) = true →
      NameOutcome state lead name
        (.error (.tooManyDigits none) { state with context := state.context.advance drawn })

/-- What the registration of a value comes to: a new placeholder, or nothing but numbers that were
    drawn. -/
inductive ValueOutcome (state : AliasState) (value : Value) :
    EStateM.Result Error AliasState String → Prop where
  | issued {placeholder : String} {drawn : Nat} :
      drawn ≤ 1 + drawLimit state.values.length →
      state.isFreeForValue placeholder = true →
      (0 ≤ state.context.counter → state.context.counter + drawn < counterLimit →
        IsPlaceholder valueSigil placeholder) →
      ValueOutcome state value (.ok placeholder
        { state with
          context := state.context.advance drawn
          values := state.values.insert placeholder value })
  | refused {drawn : Nat} :
      drawn ≤ 1 + drawLimit state.values.length →
      isLongInteger (state.context.counter + drawn) = true →
      ValueOutcome state value
        (.error (.tooManyDigits none) { state with context := state.context.advance drawn })

theorem drawing_of_ok {α : Type} {action : Drawing α} {result : α} {context : AliasContext}
    (h : action state.context = .ok result context) :
    drawing action state = .ok result { state with context } := by
  rw [drawing, h]

theorem drawing_of_error {α : Type} {action : Drawing α} {fault : Error} {context : AliasContext}
    (h : action state.context = .error fault context) :
    drawing action state = .error fault { state with context } := by
  rw [drawing, h]

theorem valueOutcome_of_eq {parts : List (Option String)} {value : Value}
    {outcome : EStateM.Result Error AliasState String}
    (hrun : registerValue parts value state = outcome) : state.ValueOutcome value outcome := by
  obtain ⟨drawn, hle, hdrawn⟩ := draws_freePlaceholder
    (fun _ => state.mem_of_isFreeForValue_eq_false) valueSigil parts
    (List.all_eq_true.mp (by decide) : ∀ c ∈ "value".toList, _) (by decide) state.context
  rw [List.length_map] at hle hdrawn
  rw [← hrun, registerValue, get_bind]
  rcases hdrawn with ⟨placeholder, hrun, hfree, hshape⟩ | ⟨hrun, hlong⟩
  · rw [bind_of_ok (drawing_of_ok hrun)]
    exact .issued hle hfree hshape
  · rw [bind_of_error (drawing_of_error hrun)]
    exact .refused hle hlong

theorem newNameAlias_cases (state : AliasState) (lead : Value) (name : String) :
    ∃ drawn ≤ 1 + drawLimit (state.names.length + state.taken.length),
      (∃ placeholder, drawing (state.newNameAlias lead name) state = .ok placeholder { state with
          context := (state.context.advance drawn).noteAlias lead name placeholder } ∧
        state.isFreeFor name placeholder = true ∧
        (0 ≤ state.context.counter → state.context.counter + drawn < counterLimit →
          IsPlaceholder nameSigil placeholder)) ∨
      drawing (state.newNameAlias lead name) state = .error (.tooManyDigits none) { state with
          context := state.context.advance drawn } ∧
        isLongInteger (state.context.counter + drawn) = true := by
  obtain ⟨drawn, hle, hdrawn⟩ := draws_freePlaceholder
    (fun _ => state.mem_of_isFreeFor_eq_false name) nameSigil [lead.part, some name]
    (List.all_eq_true.mp (by decide) : ∀ c ∈ "attr".toList, _) (by decide) state.context
  rw [List.length_append, List.length_map] at hle hdrawn
  rcases hdrawn with ⟨placeholder, hrun, hfree, hshape⟩ | ⟨hrun, hlong⟩
  · exact ⟨drawn, hle, .inl ⟨placeholder, drawing_of_ok (bind_of_ok hrun), hfree, hshape⟩⟩
  · exact ⟨drawn, hle, .inr ⟨drawing_of_error (bind_of_error hrun), hlong⟩⟩

/-- A noted placeholder that is free is found. -/
theorem placeholderFor_of_isFreeFor {placeholder : String}
    (halias : state.context.alias? lead name = some placeholder)
    (hfree : state.isFreeFor name placeholder = true) :
    placeholderFor lead name state = .ok placeholder state := by
  rw [placeholderFor, get_bind, halias]
  dsimp only
  rw [if_pos hfree]
  rfl

/-- A new one is made in all other cases. -/
theorem placeholderFor_of_taken (htaken : ∀ placeholder,
      state.context.alias? lead name = some placeholder →
      state.isFreeFor name placeholder = false) :
    placeholderFor lead name state = drawing (state.newNameAlias lead name) state := by
  rw [placeholderFor, get_bind]
  cases halias : state.context.alias? lead name with
  | none => rfl
  | some noted =>
    dsimp only
    rw [if_neg (Bool.eq_false_iff.mp (htaken noted halias))]

theorem nameOutcome_of_eq {outcome : EStateM.Result Error AliasState String}
    (hrun : registerName lead name state = outcome) : state.NameOutcome lead name outcome := by
  rw [← hrun, registerName]
  by_cases hkept : ∃ placeholder, state.context.alias? lead name = some placeholder ∧
      state.isFreeFor name placeholder = true
  · obtain ⟨placeholder, halias, hfree⟩ := hkept
    rw [bind_of_ok (placeholderFor_of_isFreeFor halias hfree)]
    exact .kept halias hfree
  · have htaken : ∀ placeholder, state.context.alias? lead name = some placeholder →
        state.isFreeFor name placeholder = false := fun placeholder halias =>
      Bool.eq_false_iff.mpr fun hfree => hkept ⟨placeholder, halias, hfree⟩
    have hnew := placeholderFor_of_taken htaken
    obtain ⟨drawn, hle, ⟨placeholder, hrun, hfree, hshape⟩ | ⟨hrun, hlong⟩⟩ :=
      state.newNameAlias_cases lead name
    · rw [bind_of_ok (hnew.trans hrun)]
      exact .issued htaken hle hfree hshape
    · rw [bind_of_error (hnew.trans hrun)]
      exact .refused hle hlong

/-- What the registration of a name adds to the registries if it succeeds. -/
theorem registries_of_registerName {next : AliasState} {placeholder : String}
    (hrun : registerName lead name state = .ok placeholder next) :
    next.names = state.names.insert placeholder name ∧ next.values = state.values := by
  cases nameOutcome_of_eq hrun <;> exact ⟨rfl, rfl⟩

theorem registries_of_registerValue {next : AliasState} {parts : List (Option String)}
    {value : Value} {placeholder : String}
    (hrun : registerValue parts value state = .ok placeholder next) :
    next.names = state.names ∧ next.values = state.values.insert placeholder value := by
  cases valueOutcome_of_eq hrun
  exact ⟨rfl, rfl⟩

/-- No entry of the registries is removed or changed, the counter does not go back, and a sound
    context stays sound. -/
structure Grows (s t : AliasState) : Prop where
  names : ∀ placeholder name, s.names.get? placeholder = some name →
    t.names.get? placeholder = some name
  values : ∀ placeholder value, s.values.get? placeholder = some value →
    t.values.get? placeholder = some value
  counter : s.context.counter ≤ t.context.counter
  sound : s.context.IsSound → t.context.IsSound

instance : Std.Refl Grows :=
  ⟨fun _ => ⟨fun _ _ h => h, fun _ _ h => h, Int.le_refl _, fun h => h⟩⟩

theorem Grows.trans {s t u : AliasState} (h : s.Grows t) (h' : t.Grows u) : s.Grows u where
  names placeholder name hget := h'.names placeholder name (h.names placeholder name hget)
  values placeholder value hget := h'.values placeholder value (h.values placeholder value hget)
  counter := Int.le_trans h.counter h'.counter
  sound hsound := h'.sound (h.sound hsound)

instance : IsTrans AliasState Grows := ⟨fun _ _ _ => Grows.trans⟩

/-- A placeholder that is free for a name keeps its meaning when it is registered for that name. -/
theorem get?_insert_of_isFreeFor {placeholder other meaning : String}
    (hfree : state.isFreeFor name placeholder = true)
    (hget : state.names.get? other = some meaning) :
    (state.names.insert placeholder name).get? other = some meaning := by
  by_cases hother : other = placeholder
  · -- It was free, so if it meant anything then it meant the name.
    subst hother
    have hname : meaning = name := by
      rw [isFreeFor, hget] at hfree
      exact beq_iff_eq.mp hfree
    rw [hname]
    exact Registry.get?_insert_self
  · exact (Registry.get?_insert_of_ne hother).trans hget

/-- The placeholder of a new value meant nothing before. -/
theorem get?_insert_of_isFreeForValue {placeholder other : String} {value meaning : Value}
    (hfree : state.isFreeForValue placeholder = true)
    (hget : state.values.get? other = some meaning) :
    (state.values.insert placeholder value).get? other = some meaning := by
  have hother : other ≠ placeholder := by
    rintro rfl
    rw [isFreeForValue, hget] at hfree
    cases hfree
  exact (Registry.get?_insert_of_ne hother).trans hget

/-- Numbers that are drawn change no entry. -/
theorem grows_advance (state : AliasState) (drawn : Nat) :
    state.Grows { state with context := state.context.advance drawn } where
  names _ _ hget := hget
  values _ _ hget := hget
  counter := Int.le_add_of_nonneg_right (Int.natCast_nonneg drawn)
  sound hsound := hsound.advance drawn

/-- Whether a name is registered or not, no entry changes. If it is, then its placeholder means
    it. -/
theorem leads_registerName (state : AliasState) (lead : Value) (name : String) :
    Leads Grows (registerName lead name) state fun placeholder next =>
      next.names.get? placeholder = some name ∧ (state.context.IsSound →
        next.context.counter < counterLimit → IsPlaceholder nameSigil placeholder) := by
  generalize hrun : registerName lead name state = outcome
  cases nameOutcome_of_eq hrun with
  | kept halias hfree =>
    refine .of_ok hrun ?_ ⟨Registry.get?_insert_self, fun hsound hlimit =>
      hsound.alias? hlimit halias⟩
    exact ⟨fun _ _ => get?_insert_of_isFreeFor hfree, fun _ _ hget => hget, Int.le_refl _, id⟩
  | @issued placeholder drawn htaken _ hfree hshape =>
    have hdrawn := state.grows_advance drawn
    refine .of_ok hrun ?_ ⟨Registry.get?_insert_self, fun hsound => hshape hsound.natural⟩
    exact ⟨fun _ _ => get?_insert_of_isFreeFor hfree, fun _ _ hget => hget, hdrawn.counter,
      fun hsound => (hdrawn.sound hsound).noteAlias (hshape hsound.natural)⟩
  | @refused drawn _ _ => exact .of_error hrun (state.grows_advance drawn)

theorem leads_registerValue (state : AliasState) (parts : List (Option String)) (value : Value) :
    Leads Grows (registerValue parts value) state fun placeholder next =>
      state.values.get? placeholder = none ∧ next.values.get? placeholder = some value ∧
        (state.context.IsSound → next.context.counter < counterLimit →
          IsPlaceholder valueSigil placeholder) := by
  generalize hrun : registerValue parts value state = outcome
  cases valueOutcome_of_eq hrun with
  | @issued placeholder drawn _ hfree hshape =>
    have hdrawn := state.grows_advance drawn
    refine .of_ok hrun ?_ ⟨Option.isNone_iff_eq_none.mp hfree, Registry.get?_insert_self,
      fun hsound => hshape hsound.natural⟩
    exact ⟨fun _ _ hget => hget, fun _ _ => get?_insert_of_isFreeForValue hfree, hdrawn.counter,
      hdrawn.sound⟩
  | @refused drawn _ _ => exact .of_error hrun (state.grows_advance drawn)

end AliasState

/-! ### Aliased paths -/

/-- The parts of an aliased path spell out its keys: each name stands as a placeholder that means
    it, and each position as a subscript behind what precedes it. -/
inductive Spells (names : Registry String) : List String → List Key → Prop where
  | nil : Spells names [] []
  | name {parts : List String} {keys : List Key} {placeholder name : String} :
      Spells names parts keys → IsPlaceholder nameSigil placeholder →
      names.get? placeholder = some name →
      Spells names (parts ++ [placeholder]) (keys ++ [.name name])
  | index {parts : List String} {keys : List Key} (position : Nat) :
      Spells names parts keys →
      Spells names (addSubscript (String.ofList (indexStep position)) parts)
        (keys ++ [.index position])

/-- A text is the parts that spell out a list of keys, with points between them. -/
def SpellsPath (names : Registry String) (text : String) (keys : List Key) : Prop :=
  ∃ parts, Spells names parts keys ∧ text = ".".intercalate parts

/-- A text is a placeholder that means a value. -/
def SpellsValue (values : Registry Value) (text : String) (value : Value) : Prop :=
  IsPlaceholder valueSigil text ∧ values.get? text = some value

section Spelling

variable {s t : AliasState} {parts : List String} {keys : List Key} {text : String}

theorem Spells.grows (h : Spells s.names parts keys) (hgrows : s.Grows t) :
    Spells t.names parts keys := by
  induction h with
  | nil => exact .nil
  | name _ hshape hget ih => exact .name ih hshape (hgrows.names _ _ hget)
  | index position _ ih => exact .index position ih

theorem SpellsPath.grows (h : SpellsPath s.names text keys) (hgrows : s.Grows t) :
    SpellsPath t.names text keys := by
  obtain ⟨parts, hparts, htext⟩ := h
  exact ⟨parts, hparts.grows hgrows, htext⟩

theorem SpellsValue.grows {value : Value} (h : SpellsValue s.values text value)
    (hgrows : s.Grows t) : SpellsValue t.values text value :=
  ⟨h.1, hgrows.values _ _ h.2⟩

theorem leads_nameAlias (lead : Value) (name : String) (hsound : s.context.IsSound) :
    Leads AliasState.Grows (nameAlias lead name) s fun placeholder t =>
      t.names.get? placeholder = some name ∧
        (t.context.counter < counterLimit → IsPlaceholder nameSigil placeholder) := by
  refine .bind (.ofExcept _) ?_
  rintro _ _ - ⟨rfl, -⟩
  refine .bind (.ofExcept _) ?_
  rintro _ _ - ⟨rfl, -⟩
  exact (AliasState.leads_registerName _ lead name).mono fun placeholder t _ ⟨hget, hshape⟩ =>
    ⟨hget, hshape hsound⟩

theorem leads_aliasSegments (lead : Value) (segments : List Segment) (hsound : s.context.IsSound)
    (hparts : s.context.counter < counterLimit → Spells s.names parts keys) :
    Leads AliasState.Grows (aliasSegments lead parts segments) s fun spelled t =>
      t.context.counter < counterLimit →
        Spells t.names spelled (keys ++ segments.map Segment.key) := by
  induction segments generalizing s parts keys with
  | nil =>
    refine .pure fun hlimit => ?_
    rw [List.map_nil, List.append_nil]
    exact hparts hlimit
  | cons segment segments ih =>
    have happend : keys ++ (segment :: segments).map Segment.key =
        keys ++ [segment.key] ++ segments.map Segment.key := by simp
    rw [happend, aliasSegments]
    cases segment.key with
    | index position => exact ih hsound fun hlimit => .index position (hparts hlimit)
    | name name =>
      refine .bind (leads_nameAlias lead name hsound) ?_
      rintro placeholder u hgrows ⟨hget, hshape⟩
      refine ih (hgrows.sound hsound) fun hlimit => ?_
      -- What was spelled so far is still spelled, since no entry has changed.
      have hbefore := hparts (Int.lt_of_le_of_lt hgrows.counter hlimit)
      exact .name (hbefore.grows hgrows) (hshape hlimit) hget

/-- An aliased path spells out the keys of the path. -/
theorem leads_aliasPath (lead : Value) (path : String) (hsound : s.context.IsSound) :
    Leads AliasState.Grows (aliasPath lead path) s fun text t =>
      ∃ keys, pathKeys path = .ok keys ∧
        (t.context.counter < counterLimit → SpellsPath t.names text keys) := by
  refine .get (.bind (.ofExcept _) ?_)
  rintro segments _ - ⟨rfl, hsegments⟩
  refine .bind (leads_aliasSegments _ segments hsound fun _ => .nil) ?_
  intro parts t _ hparts
  refine .pure ⟨segments.map Segment.key, ?_, fun hlimit => ⟨parts, hparts hlimit, rfl⟩⟩
  rw [pathKeys, hsegments]
  rfl

theorem leads_aliasNode (lead : Value) (node : Node) (hsound : s.context.IsSound) :
    Leads AliasState.Grows (aliasNode lead node) s fun texts t =>
      ∃ keys, pathKeys node.path = .ok keys ∧
        (t.context.counter < counterLimit → SpellsPath t.names texts.1 keys ∧
          SpellsValue t.values texts.2 node.value) := by
  refine .get (.bind (.ofExcept _) ?_)
  rintro segments _ - ⟨rfl, hsegments⟩
  refine .bind (leads_aliasSegments _ segments hsound fun _ => .nil) ?_
  intro parts t hgrows hparts
  refine .bind (.ofExcept _) ?_
  rintro first u - ⟨rfl, -⟩
  refine .bind (AliasState.leads_registerValue u _ _) ?_
  rintro text v hgrows' ⟨-, hget, hshape⟩
  refine .pure ⟨segments.map Segment.key, ?_, fun hlimit =>
    ⟨⟨parts, ?_, rfl⟩, hshape (hgrows.sound hsound) hlimit, hget⟩⟩
  · rw [pathKeys, hsegments]
    rfl
  · exact (hparts (Int.lt_of_le_of_lt hgrows'.counter hlimit)).grows hgrows'

end Spelling

end ItemDelta
