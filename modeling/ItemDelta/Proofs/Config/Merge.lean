import ItemDelta.Config.Merge
import ItemDelta.Proofs.Action
import ItemDelta.Proofs.Value.Document

/-!
# What a merge of settings does

Settings are read along keys through maps only, so that each place in them is told by a list of
keys. A merge looks at one place after the other: what it leaves under a key depends on what was
there before and on what the new settings hold under this key, and so on further down.

## Main definitions

* `Value.setting?` — the setting at the end of a list of keys.
* `Value.HasDistinctKeys` — no key stands twice in a map of the settings.
* `Value.kept?` — what is left of a new setting that is no map.
* `mergedSlot` — a place after something new was merged into it.

## Main results

* `exists_of_mergeMembers` — what a merge leaves under each key.
* `exists_mergeSettings_iff` — which settings can be merged.
* `merge_replaces_keeps_and_prunes` — what a merge leaves at each place, and that a second merge
  changes nothing.
-/

namespace ItemDelta

/-! ### Places in settings -/

/-- The setting at the end of a list of keys, which lead through maps. -/
def Value.setting? : Value → List Key → Option Value
  | v, [] => some v
  | .map members, key :: keys => (Members.get? members key).bind (·.setting? keys)
  | _, _ :: _ => none

/-- What is left of a new setting that is no map: a null may take away what is present. -/
def Value.kept? (keepNull : Bool) (v : Value) : Option Value :=
  if keepNull = false ∧ v = .null then none else some v

/-- Each map of the settings has every key once. -/
def Value.HasDistinctKeys (v : Value) : Prop :=
  ∀ path members, v.setting? path = some (.map members) → (Members.keys members).Nodup

/-- What stands at the end of a list of keys below a place that may be empty. -/
def settingBelow (slot : Option Value) (path : List Key) : Option Value :=
  slot.bind (·.setting? path)

/-- A place after something new was merged into it. -/
def mergedSlot (keepNull : Bool) (slot : Option Value) : Value → Except Error (Option Value)
  | .map members => do
    let merged ← mergeMembers keepNull (slot.getD .emptyMap) members
    return if keepNull || merged.isTruthy then some merged else none
  | v => .ok (v.kept? keepNull)

/-- A map with something under a key, or with nothing there. -/
def Members.put (members : Members) (key : Key) : Option Value → Members
  | some v => members.insert key v
  | none => members.erase key

namespace Value

variable {v w : Value} {key : Key} {keys : List Key} {members : Members}

@[simp] theorem setting?_nil (v : Value) : v.setting? [] = some v := by
  cases v <;> rfl

@[simp] theorem setting?_map (members : Members) (key : Key) (keys : List Key) :
    (Value.map members).setting? (key :: keys) = settingBelow (members.get? key) keys := rfl

theorem setting?_of_kind_ne (h : v.kind ≠ .map) : v.setting? (key :: keys) = none := by
  cases v <;> first | rfl | exact absurd rfl h

/-- Only maps have settings further down. -/
theorem exists_of_setting?_cons (h : v.setting? (key :: keys) = some w) :
    ∃ members below, v = .map members ∧ Members.get? members key = some below ∧
      below.setting? keys = some w := by
  cases v with
  | map members =>
    obtain ⟨below, hbelow, h⟩ := Option.bind_eq_some_iff.mp h
    exact ⟨members, below, rfl, hbelow, h⟩
  | _ => cases h

theorem exists_eq_map_of_kind (h : v.kind = .map) : ∃ members, v = .map members := by
  cases v <;> first | exact ⟨_, rfl⟩ | cases h

theorem kind_ne_of_isContainer (h : v.isContainer = false) : v.kind ≠ .map := by
  rintro heq
  obtain ⟨members, rfl⟩ := exists_eq_map_of_kind heq
  cases h

theorem setting?_ne_map (h : v.kind ≠ .map) (path : List Key) (members : Members) :
    v.setting? path ≠ some (.map members) := by
  intro heq
  cases path with
  | nil =>
    rw [setting?_nil, Option.some.injEq] at heq
    exact h (congrArg kind heq)
  | cons key path =>
    rw [setting?_of_kind_ne h] at heq
    cases heq

theorem HasDistinctKeys.nodup (h : (Value.map members).HasDistinctKeys) : members.keys.Nodup :=
  h [] members rfl

theorem HasDistinctKeys.below (h : (Value.map members).HasDistinctKeys)
    (hget : members.get? key = some v) : v.HasDistinctKeys := fun path others hpath =>
  h (key :: path) others (by rw [setting?_map, hget]; exact hpath)

theorem hasDistinctKeys_of_hasNames (h : v.everywhere hasNames = true) : v.HasDistinctKeys := by
  intro path members hpath
  induction path generalizing v with
  | nil =>
    rw [setting?_nil, Option.some.injEq] at hpath
    exact nodup_keys_of_hasNames (hpath ▸ test_of_everywhere h)
  | cons key path ih =>
    obtain ⟨others, below, rfl, hbelow, hpath⟩ := exists_of_setting?_cons hpath
    simp only [everywhere, Bool.and_eq_true, everywhereMembers_iff] at h
    exact ih (h.2 key below (Members.mem_of_get? hbelow)) hpath

theorem hasDistinctKeys_emptyMap : emptyMap.HasDistinctKeys := by
  intro path members h
  cases path with
  | nil =>
    cases h
    exact List.nodup_nil
  | cons key path => cases h

end Value

/-! ### Single members -/

namespace Members

variable {members : Members} {key other : Key} {slot : Option Value}

theorem get?_put_self (h : members.keys.Nodup) : (members.put key slot).get? key = slot := by
  cases slot with
  | none => exact get?_erase_self h
  | some v => exact get?_insert_self members key v

theorem get?_put_of_ne (h : other ≠ key) :
    (members.put key slot).get? other = members.get? other := by
  cases slot with
  | none => exact get?_erase_of_ne h
  | some v => exact get?_insert_of_ne h

theorem nodup_keys_put (h : members.keys.Nodup) : (members.put key slot).keys.Nodup := by
  cases slot with
  | none => exact nodup_keys_erase h key
  | some v => exact nodup_keys_insert h key v

/-- What is there already can be put there again. -/
theorem put_get?_self (members : Members) (key : Key) :
    members.put key (members.get? key) = members := by
  induction members with
  | nil => rfl
  | cons member members ih =>
    obtain ⟨k, v⟩ := member
    rw [get?_cons]
    by_cases hk : k = key
    · rw [if_pos hk, put, insert, if_pos hk, hk]
    · rw [if_neg hk]
      cases hget : get? members key with
      | none =>
        rw [hget, put] at ih
        rw [put, erase, if_neg hk, ih]
      | some w =>
        rw [hget, put] at ih
        rw [put, insert, if_neg hk, ih]

end Members

section Merging

variable {keepNull : Bool} {slot after : Option Value} {v w target changes merged : Value}
  {key : Key} {path : List Key} {members present result : Members}

theorem mergedSlot_of_kind_ne (h : v.kind ≠ .map) :
    mergedSlot keepNull slot v = .ok (v.kept? keepNull) := by
  cases v <;> first | rfl | exact absurd rfl h

/-- One new setting is put where it belongs, and nothing else changes. -/
theorem mergeMember_map (keepNull : Bool) (present : Members) (key : Key) (v : Value) :
    mergeMember keepNull (.map present) key v =
      (mergedSlot keepNull (present.get? key) v).map fun slot => .map (present.put key slot) := by
  cases v with
  | map members =>
    rw [mergeMember, mergedSlot, presentSetting]
    change ((mergeMembers keepNull ((present.get? key).getD .emptyMap) members).bind fun merged =>
      putMerged keepNull (.map present) key merged) = _
    cases mergeMembers keepNull ((present.get? key).getD .emptyMap) members with
    | error fault => rfl
    | ok merged =>
      change putMerged keepNull (.map present) key merged =
        .ok (.map (present.put key (if keepNull || merged.isTruthy then some merged else none)))
      rw [putMerged]
      split <;> rfl
  | null => cases keepNull <;> rfl
  | _ => cases keepNull <;> rfl

/-- Into what is no map nothing can be merged but an empty map. -/
theorem mergeMembers_of_kind_ne (hkind : target.kind ≠ .map)
    (h : mergeMembers keepNull target members = .ok merged) : members = [] ∧ merged = target := by
  cases members with
  | nil =>
    cases h
    exact ⟨rfl, rfl⟩
  | cons member members =>
    obtain ⟨key, v⟩ := member
    have hfails : ∃ fault, mergeMember keepNull target key v = .error fault := by
      cases target <;> first | exact absurd rfl hkind | skip
      all_goals
        cases v <;> cases keepNull <;> exact ⟨_, rfl⟩
    obtain ⟨fault, hfails⟩ := hfails
    rw [mergeMembers, hfails] at h
    cases h

/-- What a merge leaves under each key: what was there before if nothing new is, and otherwise
    what comes of both. -/
theorem exists_of_mergeMembers (hmembers : members.keys.Nodup) (hpresent : present.keys.Nodup)
    (h : mergeMembers keepNull (.map present) members = .ok merged) :
    ∃ result : Members, merged = .map result ∧ result.keys.Nodup ∧
      (∀ key, members.get? key = none → result.get? key = present.get? key) ∧
      ∀ key v, members.get? key = some v →
        mergedSlot keepNull (present.get? key) v = .ok (result.get? key) := by
  induction members generalizing present with
  | nil =>
    cases h
    exact ⟨present, rfl, hpresent, fun _ _ => rfl, fun _ _ hget => by cases hget⟩
  | cons member members ih =>
    obtain ⟨first, v⟩ := member
    rw [Members.keys_cons, List.nodup_cons] at hmembers
    rw [mergeMembers, mergeMember_map] at h
    obtain ⟨slot, hslot⟩ : ∃ slot, mergedSlot keepNull (present.get? first) v = .ok slot := by
      cases hstep : mergedSlot keepNull (present.get? first) v with
      | error fault =>
        rw [hstep] at h
        cases h
      | ok slot => exact ⟨slot, rfl⟩
    rw [hslot] at h
    obtain ⟨result, rfl, hresult, hother, hsame⟩ :=
      ih hmembers.2 (Members.nodup_keys_put hpresent) h
    -- The first key does not come again, so what is put there stays.
    have hfirst : result.get? first = slot := by
      rw [hother first (Members.get?_eq_none_iff.mpr hmembers.1), Members.get?_put_self hpresent]
    refine ⟨result, rfl, hresult, fun key hget => ?_, fun key w hget => ?_⟩
    · rw [Members.get?_cons] at hget
      split at hget
      · cases hget
      · rename_i hne
        rw [hother key hget, Members.get?_put_of_ne (Ne.symm hne)]
    · rw [Members.get?_cons] at hget
      split at hget
      · rename_i heq
        cases hget
        rw [← heq, hfirst, hslot]
      · rename_i hne
        rw [← hsame key w hget, Members.get?_put_of_ne (Ne.symm hne)]

/-- A merge succeeds if what is new under each key can be merged into what is there. -/
theorem exists_mergeMembers (hmembers : members.keys.Nodup)
    (h : ∀ key v, members.get? key = some v →
      ∃ after, mergedSlot keepNull (present.get? key) v = .ok after) :
    ∃ merged, mergeMembers keepNull (.map present) members = .ok merged := by
  induction members generalizing present with
  | nil => exact ⟨_, rfl⟩
  | cons member members ih =>
    obtain ⟨first, v⟩ := member
    rw [Members.keys_cons, List.nodup_cons] at hmembers
    obtain ⟨slot, hslot⟩ := h first v (by rw [Members.get?_cons, if_pos rfl])
    have hrest : ∀ key w, Members.get? members key = some w →
        ∃ after, mergedSlot keepNull ((present.put first slot).get? key) w = .ok after := by
      intro key w hget
      have hne : first ≠ key := by
        rintro rfl
        exact hmembers.1 (Members.get?_isSome_iff.mp (by rw [hget]; rfl))
      rw [Members.get?_put_of_ne (Ne.symm hne)]
      exact h key w (by rw [Members.get?_cons, if_neg hne, hget])
    obtain ⟨merged, hmerged⟩ := ih hmembers.2 hrest
    refine ⟨merged, ?_⟩
    rw [mergeMembers, mergeMember_map, hslot]
    exact hmerged

/-- Settings into which each new one is merged already stay as they are. -/
theorem mergeMembers_eq_self
    (h : ∀ key v, (key, v) ∈ members →
      mergedSlot keepNull (present.get? key) v = .ok (present.get? key)) :
    mergeMembers keepNull (.map present) members = .ok (.map present) := by
  induction members with
  | nil => rfl
  | cons member members ih =>
    obtain ⟨first, v⟩ := member
    have hstep : mergeMember keepNull (.map present) first v = .ok (.map present) := by
      rw [mergeMember_map, h first v List.mem_cons_self]
      exact congrArg (fun members => Except.ok (Value.map members))
        (Members.put_get?_self present first)
    rw [mergeMembers, hstep]
    exact ih fun key w hmem => h key w (List.mem_cons_of_mem _ hmem)

/-! ### Places -/

theorem settingBelow_cons (slot : Option Value) (key : Key) (path : List Key) :
    settingBelow slot (key :: path) = settingBelow (settingBelow slot [key]) path := by
  cases slot with
  | none => rfl
  | some v =>
    by_cases hkind : v.kind = .map
    · obtain ⟨members, rfl⟩ := Value.exists_eq_map_of_kind hkind
      change settingBelow (Members.get? members key) path =
        settingBelow (settingBelow (Members.get? members key) []) path
      cases Members.get? members key <;> simp [settingBelow]
    · simp [settingBelow, Value.setting?_of_kind_ne hkind]

theorem settingBelow_map (members : Members) (key : Key) :
    settingBelow (some (.map members)) [key] = members.get? key := by
  change settingBelow (members.get? key) [] = _
  cases members.get? key <;> simp [settingBelow]

/-- Nothing is in an empty map. -/
theorem settingBelow_getD (slot : Option Value) (key : Key) :
    settingBelow (some (slot.getD .emptyMap)) [key] = settingBelow slot [key] := by
  cases slot <;> rfl

/-- Each map at a place that may be empty has every key once. -/
def SlotHasDistinctKeys (slot : Option Value) : Prop := ∀ v ∈ slot, v.HasDistinctKeys

theorem SlotHasDistinctKeys.below (h : SlotHasDistinctKeys slot) (key : Key) :
    SlotHasDistinctKeys (settingBelow slot [key]) := by
  intro v hv path members hpath
  cases slot with
  | none => cases hv
  | some w =>
    refine h w rfl (key :: path) members ?_
    have hbelow := settingBelow_cons (some w) key path
    rw [Option.mem_def.mp hv] at hbelow
    exact hbelow.trans hpath

theorem SlotHasDistinctKeys.getD (h : SlotHasDistinctKeys slot) :
    (slot.getD .emptyMap).HasDistinctKeys := by
  cases slot with
  | none => exact Value.hasDistinctKeys_emptyMap
  | some v => exact h v rfl

theorem exists_of_mergedSlot (h : mergedSlot keepNull slot (.map members) = .ok after) :
    ∃ merged, mergeMembers keepNull (slot.getD .emptyMap) members = .ok merged ∧
      after = if keepNull || merged.isTruthy then some merged else none := by
  rw [mergedSlot] at h
  obtain ⟨merged, hmerged, h⟩ := exists_of_bind_eq_ok h
  cases h
  exact ⟨merged, hmerged, rfl⟩

theorem mergedSlot_map (h : mergeMembers keepNull (slot.getD .emptyMap) members = .ok merged) :
    mergedSlot keepNull slot (.map members) =
      .ok (if keepNull || merged.isTruthy then some merged else none) := by
  rw [mergedSlot, h]
  rfl

/-- What is not kept has nothing in it. -/
theorem settingBelow_ite (merged : Value) (key : Key) :
    settingBelow (if keepNull || merged.isTruthy then some merged else none) [key] =
      settingBelow (some merged) [key] := by
  split
  · rfl
  · rename_i hempty
    rw [Bool.or_eq_true, not_or] at hempty
    cases merged with
    | map members =>
      cases members with
      | nil => rfl
      | cons member members => exact absurd rfl hempty.2
    | _ => rfl

/-- One step down: what a merge leaves under a key is what was there if nothing new is, and
    otherwise what comes of both. -/
theorem mergedSlot_below (hmembers : (Value.map members).HasDistinctKeys)
    (hslot : SlotHasDistinctKeys slot) (h : mergedSlot keepNull slot (.map members) = .ok after)
    (key : Key) :
    (members.get? key = none → settingBelow after [key] = settingBelow slot [key]) ∧
      ∀ v, members.get? key = some v →
        mergedSlot keepNull (settingBelow slot [key]) v = .ok (settingBelow after [key]) := by
  obtain ⟨merged, hmerged, rfl⟩ := exists_of_mergedSlot h
  have hdistinct := hslot.getD
  rw [settingBelow_ite, ← settingBelow_getD slot]
  by_cases hkind : (slot.getD .emptyMap).kind = .map
  · obtain ⟨present, hpresent⟩ := Value.exists_eq_map_of_kind hkind
    rw [hpresent] at hmerged hdistinct ⊢
    obtain ⟨result, rfl, -, hother, hsame⟩ :=
      exists_of_mergeMembers hmembers.nodup hdistinct.nodup hmerged
    rw [settingBelow_map, settingBelow_map]
    exact ⟨hother key, hsame key⟩
  · obtain ⟨rfl, rfl⟩ := mergeMembers_of_kind_ne hkind hmerged
    exact ⟨fun _ => rfl, fun v hget => by cases hget⟩

/-! ### What is new, and what stays -/

/-- What is new at a place and no map stands there afterwards, as far as it is kept. -/
theorem settingBelow_mergedSlot_of_leaf (hv : v.HasDistinctKeys) (hslot : SlotHasDistinctKeys slot)
    (h : mergedSlot keepNull slot v = .ok after) (hnew : v.setting? path = some w)
    (hleaf : w.kind ≠ .map) : settingBelow after path = w.kept? keepNull := by
  induction path generalizing v slot after with
  | nil =>
    rw [Value.setting?_nil, Option.some.injEq] at hnew
    subst hnew
    rw [mergedSlot_of_kind_ne hleaf, Except.ok.injEq] at h
    rw [← h]
    cases v.kept? keepNull <;> simp [settingBelow]
  | cons key path ih =>
    obtain ⟨members, below, rfl, hbelow, hnew⟩ := Value.exists_of_setting?_cons hnew
    rw [settingBelow_cons]
    exact ih (hv.below hbelow) (hslot.below key)
      ((mergedSlot_below hv hslot h key).2 below hbelow) hnew

/-- Nothing new is at a place, and nothing but maps is above it. -/
def Value.Spares (v : Value) (path : List Key) : Prop :=
  ∀ front, front <+: path → ∀ w, v.setting? front = some w → w.kind = .map ∧ front ≠ path

theorem Value.Spares.below {members : Members} {key : Key}
    (h : (Value.map members).Spares (key :: path)) (hget : members.get? key = some v) :
    v.Spares path := by
  intro front hfront w hw
  have hnew : (Value.map members).setting? (key :: front) = some w := by
    rw [setting?_map, hget]
    exact hw
  obtain ⟨hkind, hne⟩ := h (key :: front) (List.cons_prefix_cons.mpr ⟨rfl, hfront⟩) w hnew
  exact ⟨hkind, fun heq => hne (congrArg (key :: ·) heq)⟩

/-- A place that the new settings spare is as it was. -/
theorem settingBelow_mergedSlot_of_spares (hv : v.HasDistinctKeys)
    (hslot : SlotHasDistinctKeys slot) (h : mergedSlot keepNull slot v = .ok after)
    (hspares : v.Spares path) : settingBelow after path = settingBelow slot path := by
  induction path generalizing v slot after with
  | nil => exact absurd rfl (hspares [] List.prefix_rfl v (Value.setting?_nil v)).2
  | cons key path ih =>
    have hkind := (hspares [] List.nil_prefix v (Value.setting?_nil v)).1
    obtain ⟨members, rfl⟩ := Value.exists_eq_map_of_kind hkind
    obtain ⟨hother, hsame⟩ := mergedSlot_below hv hslot h key
    rw [settingBelow_cons after, settingBelow_cons slot]
    cases hget : Members.get? members key with
    | none => rw [hother hget]
    | some below =>
      exact ih (hv.below hget) (hslot.below key) (hsame below hget) (hspares.below hget)

/-- Where the new settings have a map, no empty one is left if nulls take away. -/
theorem settingBelow_mergedSlot_ne_empty (hv : v.HasDistinctKeys)
    (hslot : SlotHasDistinctKeys slot) (h : mergedSlot false slot v = .ok after)
    (hnew : v.setting? path = some (.map members)) :
    settingBelow after path ≠ some .emptyMap := by
  induction path generalizing v slot after with
  | nil =>
    rw [Value.setting?_nil, Option.some.injEq] at hnew
    subst hnew
    obtain ⟨merged, -, rfl⟩ := exists_of_mergedSlot h
    rw [Bool.false_or]
    split
    · rename_i htruthy
      rintro heq
      rw [settingBelow, Option.bind_some, Value.setting?_nil, Option.some.injEq] at heq
      rw [heq] at htruthy
      cases htruthy
    · exact fun heq => by cases heq
  | cons key path ih =>
    obtain ⟨others, below, rfl, hbelow, hnew⟩ := Value.exists_of_setting?_cons hnew
    rw [settingBelow_cons]
    exact ih (hv.below hbelow) (hslot.below key)
      ((mergedSlot_below hv hslot h key).2 below hbelow) hnew

/-! ### Merging again -/

/-- A merge into what is no map comes to nothing new, and one into a map to a map. -/
theorem kind_of_mergeMembers (hmembers : members.keys.Nodup) (htarget : target.HasDistinctKeys)
    (h : mergeMembers keepNull target members = .ok merged) :
    merged.kind = .map ∨ members = [] := by
  by_cases hkind : target.kind = .map
  · obtain ⟨present, rfl⟩ := Value.exists_eq_map_of_kind hkind
    obtain ⟨result, rfl, -⟩ := exists_of_mergeMembers hmembers htarget.nodup h
    exact .inl rfl
  · exact .inr (mergeMembers_of_kind_ne hkind h).1

/-- Several new settings can be merged again if each of them can. -/
theorem mergeMembers_of_mergeMembers (hmembers : members.keys.Nodup)
    (htarget : target.HasDistinctKeys)
    (hagain : ∀ key v, members.get? key = some v → ∀ slot after, SlotHasDistinctKeys slot →
      mergedSlot keepNull slot v = .ok after → mergedSlot keepNull after v = .ok after)
    (h : mergeMembers keepNull target members = .ok merged) :
    mergeMembers keepNull merged members = .ok merged := by
  by_cases hkind : target.kind = .map
  · obtain ⟨present, rfl⟩ := Value.exists_eq_map_of_kind hkind
    obtain ⟨result, rfl, -, -, hsame⟩ := exists_of_mergeMembers hmembers htarget.nodup h
    refine mergeMembers_eq_self fun key v hmem => ?_
    have hget := (Members.get?_eq_some_iff hmembers).mpr hmem
    refine hagain key v hget _ _ (fun w hw => ?_) (hsame key v hget)
    exact htarget.below (Option.mem_def.mp hw)
  · obtain ⟨rfl, rfl⟩ := mergeMembers_of_kind_ne hkind h
    rfl

/-- What was merged at a place can be merged there again, and changes nothing. -/
theorem mergedSlot_of_mergedSlot (hv : v.HasDistinctKeys) (hslot : SlotHasDistinctKeys slot)
    (h : mergedSlot keepNull slot v = .ok after) : mergedSlot keepNull after v = .ok after := by
  induction v using Value.containerInduction generalizing slot after with
  | leaf v hleaf =>
    rw [mergedSlot_of_kind_ne (Value.kind_ne_of_isContainer hleaf)] at h ⊢
    exact h
  | list items => exact h
  | map members ih =>
    obtain ⟨merged, hmerged, rfl⟩ := exists_of_mergedSlot h
    have hagain := mergeMembers_of_mergeMembers hv.nodup hslot.getD
      (fun key v hget slot after hslot hafter =>
        ih key v (Members.mem_of_get? hget) (hv.below hget) hslot hafter) hmerged
    split
    · rename_i hkept
      rw [mergedSlot_map hagain, if_pos hkept]
    · rename_i hempty
      rw [Bool.or_eq_true, not_or] at hempty
      -- The next merge starts from an empty map, which is what this one has come to.
      have hstart : mergeMembers keepNull .emptyMap members = .ok .emptyMap := by
        rcases kind_of_mergeMembers hv.nodup hslot.getD hmerged with hkind | rfl
        · obtain ⟨result, rfl⟩ := Value.exists_eq_map_of_kind hkind
          cases result with
          | nil => exact hagain
          | cons member result => exact absurd rfl hempty.2
        · rfl
      have hnone : mergedSlot keepNull none (.map members) = .ok _ := mergedSlot_map hstart
      rw [hnone, if_neg]
      rw [Bool.or_eq_true, not_or]
      exact ⟨hempty.1, Bool.false_ne_true⟩

/-! ### Settings that can be merged -/

/-- Something new can be merged into a place just if there are only maps where it has maps with
    something in them, as far as there is anything. -/
theorem exists_mergedSlot_iff (hv : v.HasDistinctKeys) (hslot : SlotHasDistinctKeys slot) :
    (∃ after, mergedSlot keepNull slot v = .ok after) ↔
      ∀ path members w, v.setting? path = some (.map members) → members ≠ [] →
        settingBelow slot path = some w → w.kind = .map := by
  induction v using Value.containerInduction generalizing slot with
  | leaf v hleaf =>
    have hkind := Value.kind_ne_of_isContainer hleaf
    rw [mergedSlot_of_kind_ne hkind]
    exact ⟨fun _ path members w hpath => absurd hpath (Value.setting?_ne_map hkind path members),
      fun _ => ⟨_, rfl⟩⟩
  | list items =>
    have hkind : (Value.list items).kind ≠ .map := by simp [Value.kind]
    exact ⟨fun _ path members w hpath => absurd hpath (Value.setting?_ne_map hkind path members),
      fun _ => ⟨_, rfl⟩⟩
  | map members ih =>
    constructor
    · rintro ⟨after, h⟩ path others w hpath hne hplace
      cases path with
      | nil =>
        rw [Value.setting?_nil, Option.some.injEq, Value.map.injEq] at hpath
        obtain ⟨merged, hmerged, -⟩ := exists_of_mergedSlot h
        obtain ⟨v, rfl, rfl⟩ : ∃ v, slot = some v ∧ v = w := by
          cases slot with
          | none => cases hplace
          | some v => exact ⟨v, rfl, by simpa [settingBelow] using hplace⟩
        by_contra hkind
        exact hne (hpath ▸ (mergeMembers_of_kind_ne hkind hmerged).1)
      | cons key path =>
        obtain ⟨_, below, heq, hbelow, hpath⟩ := Value.exists_of_setting?_cons hpath
        cases heq
        rw [settingBelow_cons] at hplace
        exact (ih key below (Members.mem_of_get? hbelow) (hv.below hbelow) (hslot.below key)).mp
          ⟨_, (mergedSlot_below hv hslot h key).2 below hbelow⟩ path others w hpath hne hplace
    · intro h
      have hmerged :
          ∃ merged, mergeMembers keepNull (slot.getD .emptyMap) members = .ok merged := by
        cases hmembers : members with
        | nil => exact ⟨_, rfl⟩
        | cons member rest =>
          rw [← hmembers]
          have hkind : (slot.getD .emptyMap).kind = .map := by
            cases slot with
            | none => rfl
            | some w =>
              exact h [] members w (Value.setting?_nil _) (by simp [hmembers])
                (Value.setting?_nil w)
          obtain ⟨present, hpresent⟩ := Value.exists_eq_map_of_kind hkind
          rw [hpresent]
          refine exists_mergeMembers hv.nodup fun key v hget => ?_
          rw [← settingBelow_map, ← hpresent, settingBelow_getD]
          refine (ih key v (Members.mem_of_get? hget) (hv.below hget) (hslot.below key)).mpr ?_
          intro path others w hpath hne hw
          rw [← settingBelow_cons] at hw
          refine h (key :: path) others w ?_ hne hw
          rw [Value.setting?_map, hget]
          exact hpath
      obtain ⟨merged, hmerged⟩ := hmerged
      exact ⟨_, mergedSlot_map hmerged⟩

/-! ### Whole settings -/

/-- A map is merged into another one as it is into a place that holds this one, but is left there
    if nothing is in it. -/
theorem exists_mergedSlot_of_mergeSettings
    (h : mergeSettings keepNull target changes = .ok merged) :
    ∃ members after, changes = .map members ∧ mergeMembers keepNull target members = .ok merged ∧
      mergedSlot keepNull (some target) changes = .ok after ∧
      ∀ key path, merged.setting? (key :: path) = settingBelow after (key :: path) := by
  cases changes with
  | map members =>
    rw [mergeSettings] at h
    refine ⟨members, _, rfl, h, mergedSlot_map h, fun key path => ?_⟩
    rw [settingBelow_cons, settingBelow_ite, ← settingBelow_cons]
    rfl
  | _ => cases h

/-- New settings can be merged into present ones just if there are only maps where the new ones have
    maps with something in them, as far as there is anything. -/
theorem exists_mergeSettings_iff (htarget : target.HasDistinctKeys)
    (hchanges : (Value.map members).HasDistinctKeys) :
    (∃ merged, mergeSettings keepNull target (.map members) = .ok merged) ↔
      ∀ path others w, (Value.map members).setting? path = some (.map others) → others ≠ [] →
        target.setting? path = some w → w.kind = .map := by
  have hslot : SlotHasDistinctKeys (some target) := fun v hv => Option.some.inj hv ▸ htarget
  have hiff : (∃ after, mergedSlot keepNull (some target) (.map members) = .ok after) ↔ _ :=
    exists_mergedSlot_iff hchanges hslot
  refine Iff.trans ⟨?_, ?_⟩ hiff
  · rintro ⟨merged, h⟩
    exact ⟨_, mergedSlot_map h⟩
  · rintro ⟨after, h⟩
    obtain ⟨merged, hmerged, -⟩ := exists_of_mergedSlot h
    exact ⟨merged, hmerged⟩

/-- Where the new settings hold something that is no map, the merged ones hold it too, except that a
    null takes away if nulls are not kept. A place at which they hold nothing, with nothing but maps
    above it, is as it was. Where they have a map, no empty one is left unless nulls are kept. And
    the same merge again changes nothing. -/
theorem merge_replaces_keeps_and_prunes {keepNull : Bool} {target changes merged : Value}
    (hkind : target.kind = .map) (htarget : target.HasDistinctKeys)
    (hchanges : changes.HasDistinctKeys)
    (h : mergeSettings keepNull target changes = .ok merged) :
    (∀ path w, changes.setting? path = some w → w.kind ≠ .map →
      merged.setting? path = if keepNull = false ∧ w = .null then none else some w) ∧
    (∀ path w, target.setting? path = some w → w.kind ≠ .map →
      (∀ front, front <+: path → ∀ u, changes.setting? front = some u →
        u.kind = .map ∧ front ≠ path) → merged.setting? path = some w) ∧
    (keepNull = false → ∀ path members, path ≠ [] → changes.setting? path = some (.map members) →
      merged.setting? path ≠ some (.map [])) ∧
    mergeSettings keepNull merged changes = .ok merged := by
  have hslot : SlotHasDistinctKeys (some target) := fun v hv => Option.some.inj hv ▸ htarget
  obtain ⟨members, after, rfl, hmerged, hafter, hbelow⟩ := exists_mergedSlot_of_mergeSettings h
  refine ⟨fun path w hnew hleaf => ?_, fun path w hpresent hleaf hspares => ?_,
    fun hkeep path others hne hnew => ?_, ?_⟩
  · cases path with
    | nil =>
      rw [Value.setting?_nil, Option.some.injEq] at hnew
      exact absurd (hnew ▸ rfl) hleaf
    | cons key path =>
      rw [hbelow]
      exact settingBelow_mergedSlot_of_leaf hchanges hslot hafter hnew hleaf
  · cases path with
    | nil =>
      rw [Value.setting?_nil, Option.some.injEq] at hpresent
      exact absurd (hpresent ▸ hkind) hleaf
    | cons key path =>
      rw [hbelow, settingBelow_mergedSlot_of_spares hchanges hslot hafter hspares]
      exact hpresent
  · obtain ⟨key, path, rfl⟩ := List.exists_cons_of_ne_nil hne
    rw [hbelow]
    subst hkeep
    exact settingBelow_mergedSlot_ne_empty hchanges hslot hafter hnew
  · exact mergeMembers_of_mergeMembers hchanges.nodup htarget (fun key v hget _ _ =>
      mergedSlot_of_mergedSlot (hchanges.below hget)) hmerged

/-- Nulls that take away all that two maps have in them, and an empty map in the place of a zero. -/
theorem merge_of_emptied_maps :
    ∃ merged, mergeSettings false
        (.ofNamed [("a", .ofNamed [("x", .int 1), ("y", .int 2)]), ("b", .ofNamed [("z", .int 3)]),
          ("c", .int 0)])
        (.ofNamed [("a", .ofNamed [("y", .null), ("n", .ofNamed [("m", .list [])])]),
          ("b", .ofNamed [("z", .null), ("o", .ofNamed [("p", .null)])]), ("c", .map [])]) =
          .ok merged ∧
      merged.setting? [.name "a", .name "y"] = none ∧
      merged.setting? [.name "a", .name "n", .name "m"] = some (.list []) ∧
      merged.setting? [.name "a", .name "x"] = some (.int 1) ∧
      merged.setting? [.name "b"] ≠ some (.map []) ∧
      mergeSettings false merged
        (.ofNamed [("a", .ofNamed [("y", .null), ("n", .ofNamed [("m", .list [])])]),
          ("b", .ofNamed [("z", .null), ("o", .ofNamed [("p", .null)])]), ("c", .map [])]) =
          .ok merged := by
  have hmerge : mergeSettings false
      (.ofNamed [("a", .ofNamed [("x", .int 1), ("y", .int 2)]), ("b", .ofNamed [("z", .int 3)]),
        ("c", .int 0)])
      (.ofNamed [("a", .ofNamed [("y", .null), ("n", .ofNamed [("m", .list [])])]),
        ("b", .ofNamed [("z", .null), ("o", .ofNamed [("p", .null)])]), ("c", .map [])]) =
      .ok (.ofNamed [("a", .ofNamed [("x", .int 1), ("n", .ofNamed [("m", .list [])])])]) := by
    rfl
  obtain ⟨hnew, hpresent, hpruned, hagain⟩ := merge_replaces_keeps_and_prunes (by rfl)
    (Value.hasDistinctKeys_of_hasNames (by decide)) (Value.hasDistinctKeys_of_hasNames (by decide))
    hmerge
  refine ⟨_, hmerge, hnew [.name "a", .name "y"] .null rfl (by decide),
    hnew [.name "a", .name "n", .name "m"] (.list []) rfl (by decide),
    hpresent [.name "a", .name "x"] (.int 1) rfl (by decide) ?_,
    hpruned rfl [.name "b"] _ (by decide) rfl, hagain⟩
  -- Of the new settings, only maps stand above the first member of `a`.
  intro front hfront u hu
  obtain rfl | ⟨below, rfl, hbelow⟩ := List.prefix_cons_iff.mp hfront
  · cases hu
    exact ⟨rfl, by decide⟩
  · obtain rfl | ⟨last, rfl, hlast⟩ := List.prefix_cons_iff.mp hbelow
    · cases hu
      exact ⟨rfl, by decide⟩
    · rw [List.prefix_nil.mp hlast] at hu
      cases hu

end Merging

end ItemDelta
