import ItemDelta.Proofs.Diff.Structural

/-!
# Edits place by place

Whether there is an edit at a place can be told from the two values there, provided that the
comparison gets to the place. It gets past the places above unless a container is swapped for
something else there, or a value is added there as a whole.

## Main definitions

* `readAt` — the value at the end of a list of keys, below a value that may be missing.
* `editHere` — the edit that two values at one place are.
* `descends` — whether the comparison goes on below two values.
* `IsEdit` — the edits between two values, place by place.

## Main results

* `isEdit_below_iff` — one step down, edits are told from the values below.
* `mem_editsBetween_iff` — the structural diff finds exactly these edits.
-/

namespace ItemDelta

/-- The value at the end of a list of keys, below a value that may be missing. -/
def readAt (v : Option Value) (keys : List Key) : Option Value := v.bind (·.get? keys)

@[simp] theorem readAt_nil (v : Option Value) : readAt v [] = v := by
  cases v <;> simp [readAt]

theorem readAt_cons (v : Option Value) (key : Key) (keys : List Key) :
    readAt v (key :: keys) = readAt (v.bind (·.child? key)) keys := by
  cases v <;> simp [readAt]

theorem readAt_some (v : Value) (keys : List Key) : readAt (some v) keys = v.get? keys := rfl

/-- The edit that two values at one place are, whatever lies below them. -/
def editHere (orphans : Bool) : Option Value → Option Value → Option (Bucket × Value)
  | none, none => none
  | none, some v => if orphans && v.isInternal then none else some (.add, v)
  | some u, none => if u.isInternal then none else some (.delete, u)
  | some u, some v =>
    if deletes u v then some (.delete, u)
    else if swapsKind u v then some (.set, v)
    else if v.isInternal then none
    else if u.isInternal then if orphans then some (.add, v) else none
    else if u.differs v then some (.set, v)
    else none

/-- Whether the comparison goes on below two values. -/
def descends (orphans : Bool) : Option Value → Option Value → Bool
  | some u, some v => !swapsKind u v
  | none, some _ => orphans
  | _, none => true

/-- An edit between two values, either of which may be missing. -/
structure IsEdit (orphans : Bool) (u v : Option Value) (c : Edit) : Prop where
  here : editHere orphans (readAt u c.keys) (readAt v c.keys) = some (c.bucket, c.value)
  above : ∀ before, before <+: c.keys → before ≠ c.keys →
    descends orphans (readAt u before) (readAt v before) = true

/-! ### Containers of one kind -/

section Values

variable {u v x y : Value} {key : Key}

theorem swapsKind_of_sharesContainer (h : u.sharesContainer v = true) :
    swapsKind u v = false := by
  cases u <;> cases v <;>
    simp_all [Value.sharesContainer, swapsKind, Value.containerKind?, Value.isContainer, Value.kind]

theorem swapsKind_of_not_sharesContainer (h : u.sharesContainer v = false) :
    swapsKind u v = (u.isInternal || v.isInternal) := by
  cases u <;> cases v <;>
    simp_all [Value.sharesContainer, swapsKind, Value.containerKind?, Value.isContainer, Value.kind,
      Value.isInternal]

theorem sharesContainer_of_child? (hu : u.child? key = some x) (hv : v.child? key = some y) :
    u.sharesContainer v = true := by
  cases u <;> cases v <;> cases key <;> simp_all [Value.child?, Value.sharesContainer]

theorem deletes_of_sharesContainer (h : u.sharesContainer v = true) : deletes u v = false := by
  cases u <;> cases v <;>
    simp_all [Value.sharesContainer, deletes, Value.nullified, Value.emptied, Value.isEmptyText]

theorem isInternal_of_deletes (h : deletes u v = true) : v.isInternal = false := by
  cases v <;>
    simp_all [deletes, Value.nullified, Value.emptied, Value.isInternal, Value.isEmptyText]

/-- A filled container that is deleted is swapped for what takes its place. -/
theorem swapsKind_of_deletes (h : deletes u v = true) : swapsKind u v = u.isInternal := by
  have hshares : u.sharesContainer v = false := by
    rw [← Bool.not_eq_true]
    intro hshares
    rw [deletes_of_sharesContainer hshares] at h
    cases h
  rw [swapsKind_of_not_sharesContainer hshares, isInternal_of_deletes h, Bool.or_false]

theorem swapsKind_of_not_isInternal (hu : u.isInternal = false) (hv : v.isInternal = false) :
    swapsKind u v = false := by
  rw [swapsKind, hu, hv, Bool.or_false, Bool.and_false]

theorem differs_of_sharesContainer (h : u.sharesContainer v = true)
    (hu : u.isInternal = false) (hv : v.isInternal = false) : u.differs v = false := by
  cases u <;> cases v <;>
    simp_all [Value.sharesContainer, Value.isInternal, Value.differs, Value.isNumber, Value.kind,
      Value.agrees, Value.agreesList, Value.agreesMembers]

theorem child?_of_not_isInternal (h : v.isInternal = false) (key : Key) : v.child? key = none := by
  cases v <;> cases key <;> simp_all [Value.isInternal, Value.child?]

end Values

/-! ### One step down -/

section Steps

variable {orphans : Bool} {u v : Option Value} {bucket : Bucket} {key : Key} {c : Edit}

theorem isEdit_nil_iff {w : Value} :
    IsEdit orphans u v ⟨bucket, [], w⟩ ↔ editHere orphans u v = some (bucket, w) := by
  constructor
  · intro h
    have hhere := h.here
    rwa [readAt_nil, readAt_nil] at hhere
  · intro h
    refine ⟨by rwa [readAt_nil, readAt_nil], fun before hbefore hne => ?_⟩
    exact absurd (List.prefix_nil.mp hbefore) hne

/-- The edits below a key are those of the values one step below, if the comparison gets
    there. -/
theorem isEdit_below_iff : IsEdit orphans u v (c.below key) ↔
    descends orphans u v = true ∧
      IsEdit orphans (u.bind (·.child? key)) (v.bind (·.child? key)) c := by
  constructor
  · intro h
    have hhere := h.here
    rw [Edit.below, readAt_cons, readAt_cons] at hhere
    refine ⟨by simpa using h.above [] List.nil_prefix (by simp [Edit.below]), hhere, ?_⟩
    intro before hbefore hne
    have habove := h.above (key :: before) (List.cons_prefix_cons.mpr ⟨rfl, hbefore⟩)
      (by simpa [Edit.below] using hne)
    rwa [readAt_cons, readAt_cons] at habove
  · rintro ⟨hroot, h⟩
    refine ⟨?_, fun before hbefore hne => ?_⟩
    · rw [Edit.below, readAt_cons, readAt_cons]
      exact h.here
    · cases before with
      | nil => rwa [readAt_nil, readAt_nil]
      | cons k before =>
        obtain ⟨rfl, hrest⟩ := List.cons_prefix_cons.mp hbefore
        rw [readAt_cons, readAt_cons]
        exact h.above before hrest fun heq => hne (by rw [heq]; rfl)

end Steps

/-! ### The structural diff -/

section Members

variable {orphans : Bool} {bucket : Bucket} {key : Key} {c : Edit}

theorem nil_mem_leafEdits_iff {v w : Value} (h : v.everywhere Value.hasNames = true)
    {other : Bucket} :
    ⟨other, [], w⟩ ∈ leafEdits bucket v ↔
      v.isInternal = false ∧ other = bucket ∧ w = v := by
  cases hv : v.isInternal with
  | false => simp [leafEdits_of_not_isInternal hv]
  | true =>
    rw [mem_leafEdits_of_isInternal h hv]
    simp [Edit.below]

theorem below_mem_leafEdits_iff {v : Value} (h : v.everywhere Value.hasNames = true) :
    c.below key ∈ leafEdits bucket v ↔ ∃ w, v.child? key = some w ∧ c ∈ leafEdits bucket w := by
  cases hv : v.isInternal with
  | false =>
    rw [leafEdits_of_not_isInternal hv, child?_of_not_isInternal hv]
    simp [Edit.below]
  | true =>
    rw [mem_leafEdits_of_isInternal h hv]
    constructor
    · rintro ⟨k, w, hw, d, hd, heq⟩
      obtain ⟨rfl, rfl⟩ := Edit.below_inj.mp heq
      exact ⟨w, hw, hd⟩
    · rintro ⟨w, hw, hc⟩
      exact ⟨key, w, hw, c, hc, rfl⟩

theorem nil_mem_editsBetween_iff {u v : Option Value} {w : Value}
    (hu : ∀ x, u = some x → x.everywhere Value.hasNames = true)
    (hv : ∀ y, v = some y → y.everywhere Value.hasNames = true) :
    ⟨bucket, [], w⟩ ∈ editsBetween orphans u v ↔
      editHere orphans u v = some (bucket, w) := by
  cases u <;> cases v <;> rw [editsBetween, editHere]
  case none.none => simp
  case none.some v =>
    rw [additions]
    cases orphans with
    | false => simp [eq_comm]
    | true =>
      rw [if_pos rfl, nil_mem_leafEdits_iff (hv v rfl), Bool.true_and]
      cases v.isInternal <;> simp [eq_comm]
  case some.none u =>
    rw [nil_mem_leafEdits_iff (hu u rfl)]
    cases u.isInternal <;> simp [eq_comm]
  case some.some u v =>
    cases h : u.sharesContainer v with
    | true =>
      have hnil : (⟨bucket, [], w⟩ : Edit) ∉ structuralEdits orphans u v := by
        rw [mem_structuralEdits (hu u rfl) (hv v rfl) h]
        simp [Edit.below]
      rw [editsAt_of_sharesContainer h, List.mem_append, deletes_of_sharesContainer h,
        swapsKind_of_sharesContainer h, emptiedContainer]
      cases hui : u.isInternal <;> cases hvi : v.isInternal <;> cases orphans <;>
        simp [eq_comm, differs_of_sharesContainer h, *]
    | false =>
      rw [editsAt_of_not_sharesContainer h, swapsKind_of_not_sharesContainer h]
      cases hd : deletes u v <;> cases hui : u.isInternal <;> cases hvi : v.isInternal <;>
        cases u.differs v <;> simp [eq_comm]

theorem below_mem_editsBetween_iff {u v : Option Value}
    (hu : ∀ x, u = some x → x.everywhere Value.hasNames = true)
    (hv : ∀ y, v = some y → y.everywhere Value.hasNames = true) :
    c.below key ∈ editsBetween orphans u v ↔
      descends orphans u v = true ∧
        c ∈ editsBetween orphans (u.bind (·.child? key)) (v.bind (·.child? key)) := by
  cases u <;> cases v <;> rw [editsBetween, descends]
  case none.none => simp [editsBetween]
  case none.some v =>
    rw [additions]
    cases orphans with
    | false => simp [Edit.below]
    | true =>
      rw [if_pos rfl, below_mem_leafEdits_iff (hv v rfl)]
      cases hw : v.child? key <;> simp [hw, editsBetween, additions]
  case some.none u =>
    rw [below_mem_leafEdits_iff (hu u rfl)]
    cases hw : u.child? key <;> simp [hw, editsBetween]
  case some.some u v =>
    cases h : u.sharesContainer v with
    | true =>
      have htail : c.below key ∉
          (if u.isInternal && !v.isInternal then emptiedContainer orphans v else []) := by
        rw [emptiedContainer]
        split <;> [split; skip] <;> simp [Edit.below]
      rw [editsAt_of_sharesContainer h, List.mem_append, or_iff_left htail,
        mem_structuralEdits (hu u rfl) (hv v rfl) h, swapsKind_of_sharesContainer h]
      constructor
      · rintro ⟨k, d, hd, heq⟩
        obtain ⟨rfl, rfl⟩ := Edit.below_inj.mp heq
        exact ⟨rfl, hd⟩
      · exact fun hc => ⟨key, c, hc.2, rfl⟩
    | false =>
      have hnone : c.below key ∉ editsAt orphans u v := by
        rw [editsAt_of_not_sharesContainer h]
        split <;> [skip; split] <;> simp [Edit.below]
      rw [iff_false_left hnone, swapsKind_of_not_sharesContainer h]
      -- If nothing is swapped there is no filled container, and so nothing below.
      cases hui : u.isInternal <;> cases hvi : v.isInternal <;>
        simp [child?_of_not_isInternal, hui, hvi, editsBetween]

/-- The structural diff finds exactly the edits that are told place by place. -/
theorem mem_editsBetween_iff {u v : Option Value}
    (hu : ∀ x, u = some x → x.everywhere Value.hasNames = true)
    (hv : ∀ y, v = some y → y.everywhere Value.hasNames = true) :
    c ∈ editsBetween orphans u v ↔ IsEdit orphans u v c := by
  obtain ⟨bucket, keys, w⟩ := c
  induction keys generalizing u v with
  | nil => rw [nil_mem_editsBetween_iff hu hv, isEdit_nil_iff]
  | cons key keys ih =>
    have hchild : ∀ {v : Option Value}, (∀ y, v = some y → y.everywhere Value.hasNames = true) →
        ∀ y, v.bind (·.child? key) = some y → y.everywhere Value.hasNames = true := by
      intro v hv y hy
      obtain ⟨x, hx, hy⟩ := Option.bind_eq_some_iff.mp hy
      exact Value.everywhere_of_child? (hv x hx) hy
    have hbelow : (⟨bucket, key :: keys, w⟩ : Edit) = Edit.below key ⟨bucket, keys, w⟩ := rfl
    rw [hbelow, below_mem_editsBetween_iff hu hv, isEdit_below_iff, ih (hchild hu) (hchild hv)]

/-- The edits between two documents are those at places below the roots. -/
theorem mem_structuralEdits_iff {u v : Value} (hu : u.everywhere Value.hasNames = true)
    (hv : v.everywhere Value.hasNames = true) (h : u.sharesContainer v = true) :
    c ∈ structuralEdits orphans u v ↔ c.keys ≠ [] ∧ IsEdit orphans (some u) (some v) c := by
  rw [mem_structuralEdits hu hv h]
  constructor
  · rintro ⟨key, d, hd, rfl⟩
    refine ⟨List.cons_ne_nil _ _, isEdit_below_iff.mpr ⟨?_, ?_⟩⟩
    · rw [descends, swapsKind_of_sharesContainer h, Bool.not_false]
    · rwa [← mem_editsBetween_iff]
      · exact fun x hx => Value.everywhere_of_child? hu hx
      · exact fun y hy => Value.everywhere_of_child? hv hy
  · rintro ⟨hne, hc⟩
    obtain ⟨bucket, keys, w⟩ := c
    cases keys with
    | nil => exact absurd rfl hne
    | cons key keys =>
      refine ⟨key, ⟨bucket, keys, w⟩, ?_, rfl⟩
      rw [mem_editsBetween_iff (fun x hx => Value.everywhere_of_child? hu hx)
        fun y hy => Value.everywhere_of_child? hv hy]
      exact (isEdit_below_iff (c := ⟨bucket, keys, w⟩)).mp hc |>.2

end Members

end ItemDelta
