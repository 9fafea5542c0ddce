import ItemDelta.Proofs.Diff.Buckets
import ItemDelta.Proofs.Path.Write

/-!
# Documents that hold a single value

A document can hold nothing but one value at the end of some keys. Between two such documents
there is one edit at most.

## Main definitions

* `spine` — a value below keys, in containers that hold nothing else.
* `nest` — the same below member names.

## Main results

* `assign_spine`, `assign_nest` — a write along keys into an empty map.
* `structuralEdits_spine`, `structuralEdits_nest` — the edits from one value to another one.
* `structuralEdits_emptyMap_nest` — the edits that make the first value.
-/

namespace ItemDelta

/-- A value below keys, in maps that hold nothing else, and in lists that it ends and that are
    filled with nulls up to it. -/
def spine : List Key → Value → Value
  | [], v => v
  | .name name :: keys, v => .ofNamed [(name, spine keys v)]
  | .index position :: keys, v => .list (List.replicate position .null ++ [spine keys v])

/-- A value below member names, in maps that hold nothing else. -/
def nest : List String → Value → Value
  | [], v => v
  | name :: names, v => .ofNamed [(name, nest names v)]

theorem spine_names (names : List String) (v : Value) :
    spine (names.map .name) v = nest names v := by
  induction names with
  | nil => rfl
  | cons name names ih => rw [List.map_cons, spine, nest, ih]

/-! ### Below keys -/

section Spine

variable {keys : List Key} {key : Key} {v w : Value} {orphans : Bool}

theorem spine_cons (key : Key) (keys : List Key) (v : Value) :
    spine (key :: keys) v = spine [key] (spine keys v) := by
  cases key <;> rfl

/-- What an empty container becomes by a write into it. -/
theorem place_emptyAbove (h : ∀ position, .index position ∈ key :: keys →
    position + 1 < Value.memoryListLength) (v : Value) :
    (Value.emptyAbove key).place key v = .ok (spine [key] v) := by
  cases key with
  | name name => rfl
  | index position => exact place_index (.inr (h position List.mem_cons_self)) v

/-- A write along keys into an empty container makes such a document, if its lists fit into
    memory. -/
theorem assign_spine (h : ∀ position, .index position ∈ key :: keys →
    position + 1 < Value.memoryListLength) (v : Value) :
    ((Value.emptyAbove key).assign (key :: keys) v).toExcept = .ok (spine (key :: keys) v) := by
  induction keys generalizing key with
  | nil => exact assign_singleton.trans (place_emptyAbove h v)
  | cons next keys ih =>
    have hbelow := ih fun position hmem => h position (List.mem_cons_of_mem _ hmem)
    have hheld : containerFor next ((Value.emptyAbove key).held? key) = Value.emptyAbove next := by
      cases key <;> rfl
    rw [← hheld] at hbelow
    rw [assign_cons hbelow fun x => ⟨_, place_emptyAbove h x⟩, place_emptyAbove h, ← spine_cons]

theorem everywhere_spine {test : Value → Bool} (hnull : test .null = true)
    (hstep : ∀ key ∈ keys, ∀ x, test (spine [key] x) = true) (hv : v.everywhere test = true) :
    (spine keys v).everywhere test = true := by
  induction keys with
  | nil => exact hv
  | cons key keys ih =>
    have hrest := ih fun other hother => hstep other (List.mem_cons_of_mem _ hother)
    have hhere := hstep key List.mem_cons_self (spine keys v)
    cases key with
    | name name =>
      rw [spine, spine, Value.ofNamed] at hhere
      rw [spine, Value.ofNamed, List.map_cons, List.map_nil, Value.everywhere, Bool.and_eq_true,
        Value.everywhereMembers_iff]
      refine ⟨hhere, fun key x hmem => ?_⟩
      rw [List.mem_singleton, Prod.mk.injEq] at hmem
      rw [hmem.2]
      exact hrest
    | index position =>
      rw [spine, Value.everywhere, Bool.and_eq_true, Value.everywhereItems_iff]
      refine ⟨hhere, fun x hmem => ?_⟩
      rcases List.mem_append.mp hmem with hmem | hmem
      · rw [List.eq_of_mem_replicate hmem]
        exact hnull
      · rw [List.mem_singleton.mp hmem]
        exact hrest

theorem isDocument_spine {name : String} (hcountable : ∀ position, .index position ∈ keys →
    position < Value.maxListLength) (hnames : v.everywhere Value.hasNames = true)
    (hlists : v.everywhere Value.isCountable = true) :
    (spine (.name name :: keys) v).IsDocument where
  kind := rfl
  named := by
    refine everywhere_spine rfl (fun key _ x => ?_) hnames
    cases key with
    | name name => simp [spine, Value.ofNamed, Value.hasNames, Members.keys]
    | index position => rfl
  countable := by
    refine everywhere_spine rfl (fun key hkey x => ?_) hlists
    cases key with
    | name name => rfl
    | index position =>
      have hlt := hcountable position ((List.mem_cons.mp hkey).resolve_left (by simp))
      simpa [spine, Value.isCountable] using Nat.succ_le_of_lt hlt

theorem hasLegibleNames_spine (hkeys : ∀ key ∈ keys, key.isLegible = true)
    (hv : v.everywhere Value.hasLegibleNames = true) :
    (spine keys v).everywhere Value.hasLegibleNames = true := by
  refine everywhere_spine rfl (fun key hkey x => ?_) hv
  cases key with
  | name name => simpa [spine, Value.ofNamed, Value.hasLegibleNames] using hkeys _ hkey
  | index position => rfl

theorem isNonNan_spine (hv : v.everywhere Value.isNonNan = true) :
    (spine keys v).everywhere Value.isNonNan = true :=
  everywhere_spine rfl (fun key _ x => by cases key <;> rfl) hv

/-! ### Edits -/

theorem editsOfItems_replicate (count start : Nat) :
    editsOfItems orphans start (List.replicate count .null ++ [v])
        (List.replicate count .null ++ [w]) =
      (editsAt orphans v w).map (Edit.below (.index (start + count))) := by
  induction count generalizing start with
  | zero => simp [editsOfItems, additionsOfItems]
  | succ count ih =>
    have hnull : editsAt orphans .null .null = [] := by
      rw [editsAt_of_not_sharesContainer rfl]
      simp [deletes, Value.nullified, Value.emptied, Value.isEmptyText, Value.isInternal,
        Value.differs, Value.isNumber, Value.agrees]
    rw [List.replicate_succ, List.cons_append, List.cons_append, editsOfItems, hnull, ih,
      Nat.add_right_comm, Nat.add_assoc]
    rfl

theorem structuralEdits_spine_singleton (key : Key) :
    structuralEdits orphans (spine [key] v) (spine [key] w) =
      (editsAt orphans v w).map (Edit.below key) := by
  cases key with
  | name name =>
    simp [spine, Value.ofNamed, structuralEdits, editsOfMembers, additionsOfMembers, Members.get?,
      Members.contains]
  | index position =>
    show editsOfItems orphans 0 (List.replicate position .null ++ [v])
      (List.replicate position .null ++ [w]) = _
    rw [editsOfItems_replicate, Nat.zero_add]

theorem editsAt_spine_singleton (key : Key) :
    editsAt orphans (spine [key] v) (spine [key] w) =
      structuralEdits orphans (spine [key] v) (spine [key] w) := by
  have hfilled : ∀ x, (spine [key] x).isInternal = true := by
    intro x
    cases key <;> simp [spine, Value.ofNamed, Value.isInternal]
  have hshares : (spine [key] v).sharesContainer (spine [key] w) = true := by
    cases key <;> rfl
  rw [editsAt_of_sharesContainer hshares, hfilled, hfilled]
  exact List.append_nil _

theorem editsAt_spine (orphans : Bool) (keys : List Key) (hv : v.isInternal = false)
    (hw : w.isInternal = false) (hshares : v.sharesContainer w = false)
    (hdeletes : deletes v w = false) :
    editsAt orphans (spine keys v) (spine keys w) =
      if v.differs w then [⟨.set, keys, w⟩] else [] := by
  induction keys with
  | nil =>
    rw [spine, spine, editsAt_of_not_sharesContainer hshares, hdeletes, hv, hw]
    rfl
  | cons key keys ih =>
    rw [spine_cons key keys v, spine_cons key keys w, editsAt_spine_singleton,
      structuralEdits_spine_singleton, ih]
    split <;> rfl

/-- From one value to another one there is one edit, if they differ, and else none. -/
theorem structuralEdits_spine (orphans : Bool) (key : Key) (keys : List Key)
    (hv : v.isInternal = false) (hw : w.isInternal = false) (hshares : v.sharesContainer w = false)
    (hdeletes : deletes v w = false) :
    structuralEdits orphans (spine (key :: keys) v) (spine (key :: keys) w) =
      if v.differs w then [⟨.set, key :: keys, w⟩] else [] := by
  rw [← editsAt_spine orphans (key :: keys) hv hw hshares hdeletes, spine_cons key keys v,
    spine_cons key keys w, editsAt_spine_singleton]

end Spine

section Nest

variable {names : List String} {v w : Value} {place : List Key} {orphans : Bool} {bucket : Bucket}

theorem get?_nest_cons (name : String) (names : List String) (v : Value) (place : List Key) :
    (nest (name :: names) v).get? (.name name :: place) = (nest names v).get? place := by
  rw [nest, Value.get?_cons, Value.ofNamed]
  simp [Value.child?, Members.get?]

theorem get?_nest_cons_of_ne {name : String} {key : Key} (h : key ≠ .name name) :
    (nest (name :: names) v).get? (key :: place) = none := by
  rw [nest, Value.get?_cons, Value.ofNamed]
  cases key with
  | name other => simp [Value.child?, Members.get?, Ne.symm h]
  | index position => rfl

/-- Apart from its value, such a document holds nothing. -/
theorem get?_nest_of_apart (h : Apart (names.map .name) place) :
    (nest names v).get? place = none := by
  induction names generalizing place with
  | nil => exact absurd List.nil_prefix h.1
  | cons name names ih =>
    obtain ⟨key, rest, rfl⟩ := List.exists_cons_of_ne_nil h.ne_nil
    by_cases hkey : key = .name name
    · rw [hkey] at h ⊢
      rw [get?_nest_cons]
      exact ih (apart_cons_iff.mp h)
    · exact get?_nest_cons_of_ne hkey

/-- A write along member names into an empty map makes such a document. -/
theorem assign_nest (hne : names ≠ []) (v : Value) :
    (Value.emptyMap.assign (names.map .name) v).toExcept = .ok (nest names v) := by
  obtain ⟨name, names, rfl⟩ := List.exists_cons_of_ne_nil hne
  have hpositions : ∀ position, .index position ∈ Key.name name :: names.map .name →
      position + 1 < Value.memoryListLength := by simp
  rw [← spine_names]
  exact assign_spine hpositions v

theorem isDocument_nest (hne : names ≠ []) (hnames : v.everywhere Value.hasNames = true)
    (hcountable : v.everywhere Value.isCountable = true) : (nest names v).IsDocument := by
  obtain ⟨name, names, rfl⟩ := List.exists_cons_of_ne_nil hne
  rw [← spine_names]
  exact isDocument_spine (by simp) hnames hcountable

/-! ### Edits between nested values -/

/-- From one value to another one there is one edit, if they differ, and else none. -/
theorem structuralEdits_nest (orphans : Bool) (hne : names ≠ []) (hv : v.isInternal = false)
    (hw : w.isInternal = false) (hshares : v.sharesContainer w = false)
    (hdeletes : deletes v w = false) :
    structuralEdits orphans (nest names v) (nest names w) =
      if v.differs w then [⟨.set, names.map .name, w⟩] else [] := by
  obtain ⟨name, names, rfl⟩ := List.exists_cons_of_ne_nil hne
  rw [← spine_names, ← spine_names]
  exact structuralEdits_spine orphans (.name name) _ hv hw hshares hdeletes

theorem leafEdits_nest (names : List String) (hv : v.isInternal = false) :
    leafEdits bucket (nest names v) = [⟨bucket, names.map .name, v⟩] := by
  induction names with
  | nil => exact leafEdits_of_not_isInternal hv
  | cons name names ih =>
    rw [nest, Value.ofNamed, List.map_cons, List.map_nil, leafEdits, leafEditsOfMembers, ih]
    rfl

/-- The first value is added alone with orphans, and in the outermost of its maps without. -/
theorem structuralEdits_emptyMap_nest (orphans : Bool) (name : String) (names : List String)
    (hv : v.isInternal = false) :
    structuralEdits orphans .emptyMap (nest (name :: names) v) =
      if orphans then [⟨.add, (name :: names).map .name, v⟩]
      else [⟨.add, [.name name], nest names v⟩] := by
  have hstep : structuralEdits orphans .emptyMap (nest (name :: names) v) =
      (additions orphans (nest names v)).map (Edit.below (.name name)) := by
    simp [nest, Value.ofNamed, Value.emptyMap, structuralEdits, editsOfMembers,
      additionsOfMembers, Members.contains, Members.get?]
  rw [hstep, additions, leafEdits_nest names hv]
  split <;> rfl

end Nest

end ItemDelta
