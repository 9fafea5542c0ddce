import ItemDelta.Proofs.Diff.Pointwise

/-!
# The structural merge

What a patched document holds can be said without paths, by descending along both documents at
once. A value of the base document stays where the modified one does not speak against it, and the
containers that lose what they held stay as empty shells.

## Main definitions

* `strip?` — what is left of a value that the modified document does not have.
* `mergeAt` — what becomes of two values at one place, if anything.
* `mergeRoots` — the document that becomes of two documents.

## Main results

* `getElem?_mergedItems`, `get?_mergedMembers` — containers are merged key by key.

## Design notes

The merges of list elements yield null for what is gone, so that the other elements keep their
positions.
-/

namespace ItemDelta

/-- The members that a map does not have. -/
def membersBeyond (base members : Members) : Members :=
  members.filter fun member => !base.contains member.1

mutual

/-- What is left of a value that the modified document does not have: nothing of a leaf, and
    containers without leaves of the others. -/
def strip? (orphans : Bool) : Value → Option Value
  | .list items => if items.isEmpty then none else some (.list (mergedItems orphans items []))
  | .map members =>
    if members.isEmpty then none else some (.map (mergedMembers orphans members []))
  | _ => none

/-- What becomes of two values at one place, nothing if the value there is removed. -/
def mergeAt (orphans : Bool) : Value → Value → Option Value
  | .list items, .list others =>
    if orphans && others.isEmpty && !items.isEmpty then some (.list others)
    else some (.list (mergedItems orphans items others))
  | .map members, .map others =>
    if orphans && others.isEmpty && !members.isEmpty then some (.map others)
    else some (.map (mergedMembers orphans members others ++ membersBeyond members others))
  | u, v =>
    if deletes u v then none
    else if !u.isInternal && !v.isInternal && !u.differs v then some u
    else some v

/-- The elements that become of two lists. -/
def mergedItems (orphans : Bool) : List Value → List Value → List Value
  | [], vs => vs
  | u :: us, [] => (strip? orphans u).getD .null :: mergedItems orphans us []
  | u :: us, v :: vs => (mergeAt orphans u v).getD .null :: mergedItems orphans us vs

/-- The members that become of those of a base map. -/
def mergedMembers (orphans : Bool) : List (Key × Value) → Members → Members
  | [], _ => []
  | (key, u) :: us, vs =>
    let merged := match vs.get? key with
      | some v => mergeAt orphans u v
      | none => strip? orphans u
    (merged.map (key, ·)).toList ++ mergedMembers orphans us vs

end

/-- What becomes of two values at one place, either of which may be missing. -/
def mergeBetween (orphans : Bool) : Option Value → Option Value → Option Value
  | none, v => v
  | some u, none => strip? orphans u
  | some u, some v => mergeAt orphans u v

/-- The document that becomes of two documents. The roots are merged key by key even where the
    modified one is empty. -/
def mergeRoots (orphans : Bool) : Value → Value → Value
  | .list items, .list others => .list (mergedItems orphans items others)
  | .map members, .map others =>
    .map (mergedMembers orphans members others ++ membersBeyond members others)
  | u, _ => u

section Merge

variable {orphans : Bool} {items others : List Value} {members fresh : Members} {key : Key}

theorem length_mergedItems :
    (mergedItems orphans items others).length = max items.length others.length := by
  induction items generalizing others with
  | nil => simp [mergedItems]
  | cons u items ih => cases others <;> simp [mergedItems, ih]

theorem getElem?_mergedItems {i : Nat} (hi : i < max items.length others.length) :
    (mergedItems orphans items others)[i]? =
      some ((mergeBetween orphans items[i]? others[i]?).getD .null) := by
  induction items generalizing others i with
  | nil =>
    rw [List.length_nil, Nat.zero_max] at hi
    simp [mergedItems, mergeBetween, hi]
  | cons u items ih =>
    cases others with
    | nil =>
      cases i with
      | zero => simp [mergedItems, mergeBetween]
      | succ i =>
        rw [mergedItems, List.getElem?_cons_succ, ih (by simpa using hi)]
        simp
    | cons v others =>
      cases i with
      | zero => simp [mergedItems, mergeBetween]
      | succ i =>
        rw [mergedItems, List.getElem?_cons_succ, ih (by simpa using hi)]
        simp

theorem mergedMembers_eq_filterMap (members others : Members) :
    mergedMembers orphans members others = members.filterMap fun member =>
      (mergeBetween orphans (some member.2) (others.get? member.1)).map (member.1, ·) := by
  induction members with
  | nil => rfl
  | cons member members ih =>
    obtain ⟨k, u⟩ := member
    rw [mergedMembers, ih, List.filterMap_cons]
    cases others.get? k with
    | none => cases hmerged : strip? orphans u <;> simp [mergeBetween, hmerged]
    | some v => cases hmerged : mergeAt orphans u v <;> simp [mergeBetween, hmerged]

theorem keys_filterMap_sublist (f : Key → Value → Option Value) (members : Members) :
    (Members.keys (members.filterMap fun member => (f member.1 member.2).map (member.1, ·))).Sublist
      members.keys := by
  induction members with
  | nil => exact List.Sublist.slnil
  | cons member members ih =>
    obtain ⟨k, u⟩ := member
    rw [List.filterMap_cons]
    cases f k u with
    | none => exact ih.cons k
    | some w => exact ih.cons_cons k

theorem get?_filterMap (f : Key → Value → Option Value) {members : Members}
    (h : members.keys.Nodup) (key : Key) :
    Members.get? (members.filterMap fun member => (f member.1 member.2).map (member.1, ·)) key =
      (members.get? key).bind (f key) := by
  induction members with
  | nil => rfl
  | cons member members ih =>
    obtain ⟨k, u⟩ := member
    rw [Members.keys_cons, List.nodup_cons] at h
    rw [List.filterMap_cons, Members.get?_cons]
    by_cases hk : k = key
    · subst hk
      have hrest : Members.get? members k = none := Members.get?_eq_none_iff.mpr h.1
      cases hf : f k u with
      | none => simp [ih h.2, hrest, hf]
      | some w => simp [Members.get?_cons, hf]
    · cases hf : f k u <;> simp [Members.get?_cons, ih h.2, hk]

theorem get?_append (members others : Members) (key : Key) :
    Members.get? (members ++ others) key =
      (Members.get? members key).or (Members.get? others key) := by
  induction members with
  | nil => simp
  | cons member members ih =>
    obtain ⟨k, u⟩ := member
    rw [List.cons_append, Members.get?_cons, Members.get?_cons]
    by_cases hk : k = key <;> simp [hk, ih]

theorem get?_membersBeyond (base members : Members) (key : Key) :
    Members.get? (membersBeyond base members) key =
      if base.contains key then none else Members.get? members key := by
  induction members with
  | nil => simp [membersBeyond]
  | cons member members ih =>
    obtain ⟨k, u⟩ := member
    rw [membersBeyond] at ih ⊢
    rw [List.filter_cons]
    by_cases hk : k = key
    · subst hk
      cases hbase : Members.contains base k <;> simp_all [Members.get?_cons]
    · split <;> simp_all [Members.get?_cons]

/-- Maps are merged key by key. -/
theorem get?_mergedMembers {members others : Members} (h : members.keys.Nodup) (key : Key) :
    Members.get? (mergedMembers orphans members others ++ membersBeyond members others) key =
      mergeBetween orphans (members.get? key) (others.get? key) := by
  rw [get?_append, mergedMembers_eq_filterMap,
    get?_filterMap (fun key u => mergeBetween orphans (some u) (others.get? key)) h,
    get?_membersBeyond, Members.contains]
  cases Members.get? members key with
  | none => simp [mergeBetween]
  | some u => simp

theorem nodup_keys_mergedMembers {members others : Members} (hkeys : members.keys.Nodup)
    (hothers : others.keys.Nodup) :
    (Members.keys
      (mergedMembers orphans members others ++ membersBeyond members others)).Nodup := by
  have hmerged : (mergedMembers orphans members others).keys.Sublist members.keys := by
    rw [mergedMembers_eq_filterMap]
    exact keys_filterMap_sublist
      (fun key u => mergeBetween orphans (some u) (others.get? key)) members
  have hbeyond : (membersBeyond members others).keys.Sublist others.keys :=
    List.filter_sublist.map _
  rw [Members.keys, List.map_append]
  refine List.nodup_append.mpr ⟨hkeys.sublist hmerged, hothers.sublist hbeyond, ?_⟩
  -- The members beyond are those that the base map does not have.
  rintro key hkey _ hother rfl
  obtain ⟨member, hmember, rfl⟩ := List.mem_map.mp hother
  have hnew := (List.mem_filter.mp hmember).2
  rw [Members.contains_iff.mpr (hmerged.subset hkey)] at hnew
  cases hnew

/-- Two containers of one kind are merged key by key, unless a filled one is emptied as a
    whole. -/
theorem mergeAt_of_sharesContainer {u v : Value} (h : u.sharesContainer v = true) :
    mergeAt orphans u v =
      if orphans && u.isInternal && !v.isInternal then some v
      else some (mergeRoots orphans u v) := by
  cases u <;> cases v <;> simp only [Value.sharesContainer, Bool.false_eq_true] at h
  case list items others =>
    cases items <;> cases others <;> simp [mergeAt, mergeRoots, Value.isInternal]
  case map members others =>
    cases members <;> cases others <;> simp [mergeAt, mergeRoots, Value.isInternal]

theorem mergeAt_of_not_sharesContainer {u v : Value} (h : u.sharesContainer v = false) :
    mergeAt orphans u v =
      if deletes u v then none
      else if !u.isInternal && !v.isInternal && !u.differs v then some u
      else some v := by
  rw [mergeAt]
  · rintro items others rfl rfl
    exact absurd h (by simp [Value.sharesContainer])
  · rintro members others rfl rfl
    exact absurd h (by simp [Value.sharesContainer])

/-- The empty container of the kind of a container. -/
def Value.emptyLike : Value → Value
  | .list _ => .emptyList
  | _ => .emptyMap

theorem strip?_of_isInternal {u : Value} (h : u.isInternal = true) :
    strip? orphans u = some (mergeRoots orphans u u.emptyLike) := by
  cases u <;> simp only [Value.isInternal, Bool.false_eq_true, Bool.not_eq_true'] at h
  case list items => simp [strip?, h, mergeRoots, Value.emptyLike, Value.emptyList]
  case map members =>
    simp [strip?, h, mergeRoots, Value.emptyLike, Value.emptyMap, membersBeyond]

theorem strip?_of_not_isInternal {u : Value} (h : u.isInternal = false) :
    strip? orphans u = none := by
  cases u <;> simp_all [Value.isInternal, strip?]

end Merge

end ItemDelta
