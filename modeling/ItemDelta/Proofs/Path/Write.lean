import ItemDelta.Proofs.Diff.Application

/-!
# What writes keep

A write along keys keeps what holds everywhere in the document and in the value, if it holds of
nulls and empty containers too and is kept where one value is put into a container.

## Main definitions

* `IsKeptAlong` — a test that writes along some keys keep.

## Main results

* `everywhere_assign` — what a write keeps, whether it fails or not.
* `isKeptAlong_hasFilledNames` — it makes no empty names.
-/

namespace ItemDelta

/-- A test that writes along some keys keep: it holds of nulls and of empty containers, and of each
    container that it held of before a value was put into it. -/
structure IsKeptAlong (test : Value → Bool) (keys : List Key) : Prop where
  null : test .null = true
  empty : ∀ key, test (Value.emptyAbove key) = true
  place : ∀ key ∈ keys, ∀ v x w : Value, test v = true → v.place key x = .ok w → test w = true

section Everywhere

variable {test : Value → Bool} {v w x : Value} {key : Key} {keys : List Key}

theorem IsKeptAlong.tail (h : IsKeptAlong test (key :: keys)) : IsKeptAlong test keys :=
  ⟨h.null, h.empty, fun other hother => h.place other (.tail key hother)⟩

theorem IsKeptAlong.everywhere_emptyAbove (h : IsKeptAlong test keys) (key : Key) :
    (Value.emptyAbove key).everywhere test = true := by
  have hempty := h.empty key
  cases key <;> simpa [Value.emptyAbove, Value.emptyList, Value.emptyMap, Value.everywhere,
    Value.everywhereItems, Value.everywhereMembers] using hempty

theorem everywhere_held? (hv : v.everywhere test = true) (h : v.held? key = some w) :
    w.everywhere test = true := by
  cases v <;> cases key <;> simp only [Value.held?, reduceCtorEq] at h
  · rw [Value.everywhere, Bool.and_eq_true, Value.everywhereItems_iff] at hv
    exact hv.2 w (List.mem_of_getElem? h)
  all_goals
    rw [Value.everywhere, Bool.and_eq_true, Value.everywhereMembers_iff] at hv
    exact hv.2 _ w (Members.mem_of_get? h)

/-- What a container is once a value is put into it. -/
theorem eq_of_place (h : v.place key x = .ok w) :
    (∃ members : Members, v = .map members ∧ w = .map (members.insert key x)) ∨
      ∃ items position, v = .list items ∧ w = .list (Value.padSet items position x) := by
  cases v <;> cases key <;> simp only [Value.place, reduceCtorEq] at h
  case list.index items position =>
    split at h <;> [skip; split at h] <;> cases h
    exact .inr ⟨items, position, rfl, rfl⟩
  all_goals
    cases h
    exact .inl ⟨_, rfl, rfl⟩

theorem mem_padSet {items : List Value} {position : Nat}
    (h : w ∈ Value.padSet items position x) : w ∈ items ∨ w = .null ∨ w = x := by
  rw [Value.padSet] at h
  split at h
  · exact (List.mem_or_eq_of_mem_set h).imp_right .inr
  · rw [List.mem_append, List.mem_append, List.mem_singleton] at h
    rcases h with (h | h) | h
    · exact .inl h
    · exact .inr (.inl (List.eq_of_mem_replicate h))
    · exact .inr (.inr h)

/-- What holds everywhere in a container and in the value that is put into it holds everywhere in
    the outcome, if it holds of the outcome itself and of the nulls that a list is padded with. -/
theorem everywhere_of_place (hv : v.everywhere test = true) (hx : x.everywhere test = true)
    (hnull : test .null = true) (hw : v.place key x = .ok w) (htest : test w = true) :
    w.everywhere test = true := by
  rcases eq_of_place hw with ⟨members, rfl, rfl⟩ | ⟨items, position, rfl, rfl⟩
  · rw [Value.everywhere, Bool.and_eq_true, Value.everywhereMembers_iff] at hv ⊢
    refine ⟨htest, fun k y hmem => ?_⟩
    rcases Members.mem_insert hmem with heq | hmem
    · rw [(Prod.mk.inj heq).2]
      exact hx
    · exact hv.2 k y hmem
  · rw [Value.everywhere, Bool.and_eq_true, Value.everywhereItems_iff] at hv ⊢
    refine ⟨htest, fun y hmem => ?_⟩
    rcases mem_padSet hmem with hmem | rfl | rfl
    · exact hv.2 y hmem
    · exact hnull
    · exact hx

theorem IsKeptAlong.everywhere_place (h : IsKeptAlong test keys) (hkey : key ∈ keys)
    (hv : v.everywhere test = true) (hx : x.everywhere test = true) (hw : v.place key x = .ok w) :
    w.everywhere test = true :=
  everywhere_of_place hv hx h.null hw
    (h.place key hkey v x w (Value.test_of_everywhere hv) hw)

theorem everywhere_assignBelow (h : IsKeptAlong test (key :: keys))
    (hv : v.everywhere test = true) (hx : x.everywhere test = true) :
    (v.assignBelow key keys x).document.everywhere test = true := by
  induction keys generalizing v key with
  | nil =>
    rw [Value.assignBelow]
    split
    · exact h.everywhere_place List.mem_cons_self hv hx ‹_›
    · exact hv
  | cons next keys ih =>
    rw [Value.assignBelow]
    dsimp only
    split
    · exact hv
    · split
      · refine h.everywhere_place List.mem_cons_self hv (ih h.tail ?_) ‹_›
        -- The write goes on in the container that is held there, or in an empty one.
        split
        · exact everywhere_held? hv ‹_›
        · exact everywhere_held? hv ‹_›
        · exact h.everywhere_emptyAbove next
      · exact hv

/-- A write along keys keeps what holds everywhere in the document and in the value. -/
theorem everywhere_assign (h : IsKeptAlong test keys) (hv : v.everywhere test = true)
    (hx : x.everywhere test = true) : (v.assign keys x).document.everywhere test = true := by
  cases keys with
  | nil => exact hv
  | cons key keys => exact everywhere_assignBelow h hv hx

theorem isKeptAlong_hasFilledNames (h : Key.name "" ∉ keys) :
    IsKeptAlong Value.hasFilledNames keys where
  null := rfl
  empty key := by cases key <;> rfl
  place key hkey v x w hv hw := by
    rcases eq_of_place hw with ⟨members, rfl, rfl⟩ | ⟨items, position, rfl, rfl⟩
    · rw [Value.hasFilledNames, List.all_eq_true] at hv ⊢
      intro member hmember
      rcases Members.mem_insert hmember with rfl | hmember
      · exact bne_iff_ne.mpr fun heq => h (heq ▸ hkey)
      · exact hv member hmember
    · rfl

end Everywhere

end ItemDelta
