import ItemDelta.Diff.Basic
import ItemDelta.Proofs.Value.Document

/-!
# The structural diff

A diff can be found without paths, by descending along two documents at once: from the roots to
each key that one of them has a value under, as long as both hold maps there, or both hold lists.

## Main definitions

* `Edit` — a value to be added, set or deleted at the end of a list of keys.
* `leafEdits` — one edit for each leaf at or below a value.
* `editsAt` — the edits between two values that lie at one place.
* `editsBetween` — the same for places where one of the values may be missing.
* `structuralEdits` — the edits between two documents.

## Main results

* `mem_structuralEdits` — two maps, and two lists, are compared key by key.
* `nodup_structuralEdits` — no edit is listed twice.

## Design notes

The keys of an edit lead from the place where the comparison started, so the edits below a step
are those of the step, each with the step put in front.
-/

namespace ItemDelta

/-- The buckets of a diff. -/
inductive Bucket where
  | add
  | set
  | delete
deriving DecidableEq

/-- A value to be added or set at the end of a list of keys, or one to be deleted there. -/
structure Edit where
  bucket : Bucket
  keys : List Key
  value : Value
deriving DecidableEq

/-- The same edit, seen from one step further up. -/
def Edit.below (key : Key) (c : Edit) : Edit := { c with keys := key :: c.keys }

mutual

/-- One edit for each leaf at or below a value, that is for each scalar, set and empty
    container. -/
def leafEdits (bucket : Bucket) : Value → List Edit
  | .list items =>
    if items.isEmpty then [⟨bucket, [], .list items⟩] else leafEditsOfItems bucket 0 items
  | .map members =>
    if members.isEmpty then [⟨bucket, [], .map members⟩] else leafEditsOfMembers bucket members
  | v => [⟨bucket, [], v⟩]

/-- One edit for each leaf at or below list elements from a position on. -/
def leafEditsOfItems (bucket : Bucket) (position : Nat) : List Value → List Edit
  | [] => []
  | v :: vs =>
    (leafEdits bucket v).map (.below (.index position)) ++
      leafEditsOfItems bucket (position + 1) vs

/-- One edit for each leaf at or below the members of a map. -/
def leafEditsOfMembers (bucket : Bucket) : List (Key × Value) → List Edit
  | [] => []
  | (key, v) :: members =>
    (leafEdits bucket v).map (.below key) ++ leafEditsOfMembers bucket members

end

/-- What is added where only the modified document has a value: with `orphans` every leaf of it,
    otherwise the value as a whole. -/
def additions (orphans : Bool) (v : Value) : List Edit :=
  if orphans then leafEdits .add v else [⟨.add, [], v⟩]

/-- What is added for list elements from a position on. -/
def additionsOfItems (orphans : Bool) (position : Nat) (items : List Value) : List Edit :=
  (items.zipIdx position).flatMap fun (v, i) => (additions orphans v).map (.below (.index i))

/-- What is added for the members that only the modified map has. -/
def additionsOfMembers (orphans : Bool) (base members : Members) : List Edit :=
  members.flatMap fun (key, v) =>
    (if base.contains key then [] else additions orphans v).map (.below key)

/-- What remains of a filled container in whose place an empty one of its kind stands: with
    `orphans` the empty one is added as a leaf. -/
def emptiedContainer (orphans : Bool) (v : Value) : List Edit :=
  if orphans then [⟨.add, [], v⟩] else []

mutual

/-- The edits from a base value to a modified value at the same place. -/
def editsAt (orphans : Bool) : Value → Value → List Edit
  | .list items, .list others =>
    if others.isEmpty && !items.isEmpty then
      leafEditsOfItems .delete 0 items ++ emptiedContainer orphans (.list others)
    else editsOfItems orphans 0 items others
  | .map members, .map others =>
    if others.isEmpty && !members.isEmpty then
      leafEditsOfMembers .delete members ++ emptiedContainer orphans (.map others)
    else editsOfMembers orphans members others ++ additionsOfMembers orphans members others
  | u, v =>
    if deletes u v then [⟨.delete, [], u⟩]
    else if u.isInternal || v.isInternal || u.differs v then [⟨.set, [], v⟩]
    else []

/-- The edits between the elements of two lists from a position on. -/
def editsOfItems (orphans : Bool) (position : Nat) : List Value → List Value → List Edit
  | [], vs => additionsOfItems orphans position vs
  | u :: us, [] => leafEditsOfItems .delete position (u :: us)
  | u :: us, v :: vs =>
    (editsAt orphans u v).map (.below (.index position)) ++
      editsOfItems orphans (position + 1) us vs

/-- The edits of the members of a base map, which a modified map may have or not. -/
def editsOfMembers (orphans : Bool) : List (Key × Value) → Members → List Edit
  | [], _ => []
  | (key, u) :: us, vs =>
    (match vs.get? key with
      | some v => editsAt orphans u v
      | none => leafEdits .delete u).map (.below key) ++ editsOfMembers orphans us vs

end

/-- The edits between two values at the same place, either of which may be missing. -/
def editsBetween (orphans : Bool) : Option Value → Option Value → List Edit
  | none, none => []
  | none, some v => additions orphans v
  | some u, none => leafEdits .delete u
  | some u, some v => editsAt orphans u v

/-- The edits from a base to a modified document. The roots are maps, or lists, and are compared
    key by key even where the modified one is empty. -/
def structuralEdits (orphans : Bool) : Value → Value → List Edit
  | .list items, .list others => editsOfItems orphans 0 items others
  | .map members, .map others =>
    editsOfMembers orphans members others ++ additionsOfMembers orphans members others
  | _, _ => []

/-! ### Edits below a list of keys -/

section Below

variable {α : Type} {xs : List α} {key : α → Key} {edits : α → List Edit} {c d : Edit}
  {k l : Key}

theorem Edit.below_inj : c.below k = d.below l ↔ k = l ∧ c = d := by
  cases c
  cases d
  simp only [Edit.below, Edit.mk.injEq, List.cons.injEq]
  constructor
  · rintro ⟨rfl, ⟨rfl, rfl⟩, rfl⟩
    exact ⟨rfl, rfl, rfl, rfl⟩
  · rintro ⟨rfl, rfl, rfl, rfl⟩
    exact ⟨rfl, ⟨rfl, rfl⟩, rfl⟩

theorem mem_flatMap_below :
    c ∈ xs.flatMap (fun x => (edits x).map (.below (key x))) ↔
      ∃ x ∈ xs, ∃ d ∈ edits x, c = d.below (key x) := by
  simp only [List.mem_flatMap, List.mem_map, eq_comm]

theorem nodup_flatMap_below (hkeys : xs.Pairwise fun x y => key x ≠ key y)
    (h : ∀ x ∈ xs, (edits x).Nodup) :
    (xs.flatMap fun x => (edits x).map (Edit.below (key x))).Nodup := by
  refine List.nodup_flatMap.mpr ⟨fun x hx => ?_, hkeys.imp fun hne => ?_⟩
  · exact (h x hx).map fun c d heq => (Edit.below_inj.mp heq).2
  · intro c hc hd
    obtain ⟨c, -, rfl⟩ := List.mem_map.mp hc
    obtain ⟨d, -, heq⟩ := List.mem_map.mp hd
    exact hne (Edit.below_inj.mp heq).1.symm

theorem pairwise_key_of_nodup_keys {members : Members} (h : members.keys.Nodup) :
    members.Pairwise fun a b => a.1 ≠ b.1 :=
  List.pairwise_map.mp h

theorem pairwise_index_zipIdx (items : List Value) (position : Nat) :
    (items.zipIdx position).Pairwise fun a b => Key.index a.2 ≠ Key.index b.2 := by
  have hpositions : ((items.zipIdx position).map (·.2)).Nodup := by
    rw [List.zipIdx_map_snd]
    exact List.nodup_range'
  exact (List.pairwise_map.mp hpositions).imp fun hne heq => hne (Key.index.inj heq)

end Below

/-! ### Leaves -/

section Leaves

variable {bucket : Bucket} {c : Edit}

theorem leafEditsOfItems_eq_flatMap (items : List Value) (position : Nat) :
    leafEditsOfItems bucket position items = (items.zipIdx position).flatMap fun x =>
      (leafEdits bucket x.1).map (.below (.index x.2)) := by
  induction items generalizing position with
  | nil => rfl
  | cons v items ih => rw [leafEditsOfItems, ih, List.zipIdx_cons, List.flatMap_cons]

theorem leafEditsOfMembers_eq_flatMap (members : Members) :
    leafEditsOfMembers bucket members = members.flatMap fun x =>
      (leafEdits bucket x.2).map (.below x.1) := by
  induction members with
  | nil => rfl
  | cons member members ih =>
    obtain ⟨key, v⟩ := member
    rw [leafEditsOfMembers, ih, List.flatMap_cons]

theorem mem_leafEdits_of_isInternal {v : Value} (h : v.everywhere Value.hasNames = true)
    (hv : v.isInternal = true) :
    c ∈ leafEdits bucket v ↔
      ∃ key w, v.child? key = some w ∧ ∃ d ∈ leafEdits bucket w, c = d.below key := by
  cases v <;> simp only [Value.isInternal, Bool.false_eq_true, Bool.not_eq_true'] at hv
  case list items =>
    rw [leafEdits, hv, if_neg Bool.false_ne_true, leafEditsOfItems_eq_flatMap,
      mem_flatMap_below]
    constructor
    · rintro ⟨⟨w, i⟩, hmem, d, hd, rfl⟩
      exact ⟨.index i, w, List.mk_mem_zipIdx_iff_getElem?.mp hmem, d, hd, rfl⟩
    · rintro ⟨key, w, hw, d, hd, rfl⟩
      cases key with
      | name name => simp [Value.child?] at hw
      | index i => exact ⟨(w, i), List.mk_mem_zipIdx_iff_getElem?.mpr hw, d, hd, rfl⟩
  case map members =>
    have hnames := Value.test_of_everywhere h
    rw [leafEdits, hv, if_neg Bool.false_ne_true, leafEditsOfMembers_eq_flatMap,
      mem_flatMap_below]
    simp only [Value.child?_map hnames,
      Members.get?_eq_some_iff (Value.nodup_keys_of_hasNames hnames), Prod.exists]

theorem leafEdits_of_not_isInternal {v : Value} (hv : v.isInternal = false) :
    leafEdits bucket v = [⟨bucket, [], v⟩] := by
  cases v <;> simp_all [Value.isInternal, leafEdits]

theorem nodup_leafEdits {v : Value} (h : v.everywhere Value.hasNames = true) :
    (leafEdits bucket v).Nodup := by
  induction v using Value.containerInduction with
  | leaf v hv =>
    have hinternal : v.isInternal = false := by
      cases v <;> simp_all [Value.isContainer, Value.isInternal]
    rw [leafEdits_of_not_isInternal hinternal]
    exact List.nodup_singleton _
  | list items ih =>
    simp only [Value.everywhere, Bool.and_eq_true, Value.everywhereItems_iff] at h
    rw [leafEdits]
    split
    · exact List.nodup_singleton _
    · rw [leafEditsOfItems_eq_flatMap]
      refine nodup_flatMap_below (pairwise_index_zipIdx items 0) fun x hx => ?_
      have hmem : x.1 ∈ items := List.fst_mem_of_mem_zipIdx hx
      exact ih x.1 hmem (h.2 x.1 hmem)
  | map members ih =>
    have hnodup := Value.nodup_keys_of_hasNames (Value.test_of_everywhere h)
    simp only [Value.everywhere, Bool.and_eq_true, Value.everywhereMembers_iff] at h
    rw [leafEdits]
    split
    · exact List.nodup_singleton _
    · rw [leafEditsOfMembers_eq_flatMap]
      exact nodup_flatMap_below (pairwise_key_of_nodup_keys hnodup) fun x hx =>
        ih x.1 x.2 hx (h.2 x.1 x.2 hx)

end Leaves

/-! ### Containers of one kind -/

section Containers

variable {orphans : Bool} {c : Edit}

theorem flatMap_zipIdx_below (edits : Value → List Edit) (items : List Value)
    (position : Nat) :
    ((items.zipIdx position).flatMap fun x => (edits x.1).map (Edit.below (.index x.2))) =
      (List.range items.length).flatMap fun i =>
        (items[i]?.elim [] edits).map (Edit.below (.index (position + i))) := by
  induction items generalizing position with
  | nil => rfl
  | cons v items ih =>
    rw [List.zipIdx_cons, List.flatMap_cons, ih, List.length_cons, List.range_succ_eq_map,
      List.flatMap_cons, List.flatMap_map]
    simp only [List.getElem?_cons_zero, List.getElem?_cons_succ, Option.elim_some, Nat.add_zero,
      Nat.succ_eq_add_one, Nat.add_assoc, Nat.add_comm 1]

theorem editsOfItems_eq_flatMap (items others : List Value) (position : Nat) :
    editsOfItems orphans position items others =
      (List.range (max items.length others.length)).flatMap fun i =>
        (editsBetween orphans items[i]? others[i]?).map (.below (.index (position + i))) := by
  induction items generalizing others position with
  | nil =>
    rw [editsOfItems, additionsOfItems, flatMap_zipIdx_below, List.length_nil, Nat.zero_max]
    congr 1
    funext i
    cases h : others[i]? <;> simp [editsBetween]
  | cons u items ih =>
    cases others with
    | nil =>
      rw [editsOfItems, leafEditsOfItems_eq_flatMap, flatMap_zipIdx_below, List.length_nil,
        Nat.max_zero]
      congr 1
      funext i
      cases h : (u :: items)[i]? <;> simp [editsBetween]
    | cons v others =>
      rw [editsOfItems, ih, List.length_cons, List.length_cons, Nat.succ_max_succ,
        List.range_succ_eq_map, List.flatMap_cons, List.flatMap_map]
      simp only [List.getElem?_cons_zero, List.getElem?_cons_succ, editsBetween, Nat.add_zero,
        Nat.succ_eq_add_one, Nat.add_assoc, Nat.add_comm 1]

theorem editsOfMembers_eq_flatMap (members others : Members) :
    editsOfMembers orphans members others = members.flatMap fun x =>
      (editsBetween orphans (some x.2) (others.get? x.1)).map (.below x.1) := by
  induction members with
  | nil => rfl
  | cons member members ih =>
    obtain ⟨key, u⟩ := member
    rw [editsOfMembers, ih, List.flatMap_cons]
    cases others.get? key <;> rfl

/-- Whether both values are lists, or both are maps. -/
def Value.sharesContainer : Value → Value → Bool
  | .list _, .list _ => true
  | .map _, .map _ => true
  | _, _ => false

/-- Two containers of one kind are compared key by key. If the modified one is empty and the base
    one is not, the empty one counts as a leaf besides. -/
theorem editsAt_of_sharesContainer {u v : Value} (h : u.sharesContainer v = true) :
    editsAt orphans u v = structuralEdits orphans u v ++
      if u.isInternal && !v.isInternal then emptiedContainer orphans v else [] := by
  cases u <;> cases v <;> simp only [Value.sharesContainer, Bool.false_eq_true] at h
  case list items others =>
    cases items <;> cases others <;>
      simp [editsAt, structuralEdits, editsOfItems, Value.isInternal]
  case map members others =>
    cases members <;> cases others <;>
      simp [editsAt, structuralEdits, editsOfMembers_eq_flatMap,
        leafEditsOfMembers_eq_flatMap, additionsOfMembers, editsBetween, Value.isInternal]

theorem mem_structuralEdits {u v : Value} (hu : u.everywhere Value.hasNames = true)
    (hv : v.everywhere Value.hasNames = true) (h : u.sharesContainer v = true) :
    c ∈ structuralEdits orphans u v ↔
      ∃ key, ∃ d ∈ editsBetween orphans (u.child? key) (v.child? key), c = d.below key := by
  cases u <;> cases v <;> simp only [Value.sharesContainer, Bool.false_eq_true] at h
  case list items others =>
    rw [structuralEdits, editsOfItems_eq_flatMap, mem_flatMap_below]
    constructor
    · rintro ⟨i, -, d, hd, rfl⟩
      exact ⟨.index i, d, hd, by rw [Nat.zero_add]⟩
    · rintro ⟨key, d, hd, rfl⟩
      cases key with
      | name name => simp [Value.child?, editsBetween] at hd
      | index i =>
        refine ⟨i, ?_, d, hd, by rw [Nat.zero_add]⟩
        -- Beyond the longer list there are no elements, so no edits.
        by_contra hi
        rw [List.mem_range, Nat.not_lt, Nat.max_le] at hi
        rw [Value.child?, Value.child?, List.getElem?_eq_none hi.1,
          List.getElem?_eq_none hi.2] at hd
        exact List.not_mem_nil hd
  case map members others =>
    have hmembers := Value.test_of_everywhere hu
    have hothers := Value.test_of_everywhere hv
    simp only [Value.child?_map hmembers, Value.child?_map hothers]
    rw [structuralEdits, List.mem_append, editsOfMembers_eq_flatMap, mem_flatMap_below,
      additionsOfMembers, mem_flatMap_below]
    -- A member of the base map is in the first list, and a new one in the second.
    constructor
    · rintro (⟨⟨key, u⟩, hmem, d, hd, rfl⟩ | ⟨⟨key, v⟩, hmem, d, hd, rfl⟩)
      · refine ⟨key, d, ?_, rfl⟩
        rwa [(Members.get?_eq_some_iff (Value.nodup_keys_of_hasNames hmembers)).mpr hmem]
      · refine ⟨key, d, ?_, rfl⟩
        rw [(Members.get?_eq_some_iff (Value.nodup_keys_of_hasNames hothers)).mpr hmem]
        cases hget : Members.get? members key <;> simp_all [Members.contains, editsBetween]
    · rintro ⟨key, d, hd, rfl⟩
      cases hget : Members.get? members key with
      | some u =>
        rw [hget] at hd
        exact .inl ⟨(key, u), Members.mem_of_get? hget, d, hd, rfl⟩
      | none =>
        cases hother : Members.get? others key with
        | none => simp [hget, hother, editsBetween] at hd
        | some v =>
          refine .inr ⟨(key, v), Members.mem_of_get? hother, d, ?_, rfl⟩
          simpa [hget, hother, Members.contains, editsBetween] using hd

/-- Where no two containers of one kind meet, the values are compared as a whole. -/
theorem editsAt_of_not_sharesContainer {u v : Value} (h : u.sharesContainer v = false) :
    editsAt orphans u v =
      if deletes u v then [⟨.delete, [], u⟩]
      else if u.isInternal || v.isInternal || u.differs v then [⟨.set, [], v⟩]
      else [] := by
  rw [editsAt]
  · rintro items others rfl rfl
    exact absurd h (by simp [Value.sharesContainer])
  · rintro members others rfl rfl
    exact absurd h (by simp [Value.sharesContainer])

/-! ### No edit twice -/

theorem nodup_additions {v : Value} (h : v.everywhere Value.hasNames = true) :
    (additions orphans v).Nodup := by
  rw [additions]
  split
  · exact nodup_leafEdits h
  · exact List.nodup_singleton _

theorem nodup_editsBetween {u v : Option Value}
    (hu : ∀ x, u = some x → x.everywhere Value.hasNames = true)
    (hv : ∀ y, v = some y → y.everywhere Value.hasNames = true)
    (h : ∀ x y, u = some x → v = some y → (editsAt orphans x y).Nodup) :
    (editsBetween orphans u v).Nodup := by
  cases u <;> cases v <;> rw [editsBetween]
  case none.none => exact List.nodup_nil
  case none.some v => exact nodup_additions (hv v rfl)
  case some.none u => exact nodup_leafEdits (hu u rfl)
  case some.some u v => exact h u v rfl rfl

theorem nodup_structuralEdits_of_child (orphans : Bool) {u v : Value}
    (hu : u.everywhere Value.hasNames = true) (hv : v.everywhere Value.hasNames = true)
    (h : u.sharesContainer v = true)
    (hchild : ∀ key x y, u.child? key = some x → v.child? key = some y →
      (editsAt orphans x y).Nodup) :
    (structuralEdits orphans u v).Nodup := by
  have hbetween : ∀ key, (editsBetween orphans (u.child? key) (v.child? key)).Nodup :=
    fun key => nodup_editsBetween (fun x hx => Value.everywhere_of_child? hu hx)
      (fun y hy => Value.everywhere_of_child? hv hy) (hchild key)
  cases u <;> cases v <;> simp only [Value.sharesContainer, Bool.false_eq_true] at h
  case list items others =>
    rw [structuralEdits, editsOfItems_eq_flatMap]
    refine nodup_flatMap_below ?_ fun i _ => hbetween (.index i)
    refine List.nodup_range.imp fun hne heq => hne ?_
    rw [Key.index.injEq] at heq
    omega
  case map members others =>
    have hmembers := Value.test_of_everywhere hu
    have hothers := Value.test_of_everywhere hv
    have hkeys := Value.nodup_keys_of_hasNames hmembers
    have hotherKeys := Value.nodup_keys_of_hasNames hothers
    simp only [Value.child?_map hmembers, Value.child?_map hothers] at hbetween
    rw [structuralEdits, editsOfMembers_eq_flatMap, additionsOfMembers]
    refine List.nodup_append.mpr ⟨?_, ?_, ?_⟩
    · refine nodup_flatMap_below (pairwise_key_of_nodup_keys hkeys) fun x hx => ?_
      have hget := (Members.get?_eq_some_iff hkeys).mpr hx
      exact hget ▸ hbetween x.1
    · refine nodup_flatMap_below (pairwise_key_of_nodup_keys hotherKeys) fun x hx => ?_
      split
      · exact List.nodup_nil
      · simp only [Value.everywhere, Bool.and_eq_true, Value.everywhereMembers_iff] at hv
        exact nodup_additions (hv.2 x.1 x.2 hx)
    · -- The keys of the base map are not among the new ones.
      rintro c hc _ hd rfl
      obtain ⟨x, hx, c, -, rfl⟩ := mem_flatMap_below.mp hc
      obtain ⟨y, -, d, hd, heq⟩ := mem_flatMap_below.mp hd
      have hknown : Members.contains members y.1 = true :=
        (Edit.below_inj.mp heq).1 ▸ Members.contains_iff.mpr (Members.mem_keys_of_mem hx)
      rw [if_pos hknown] at hd
      exact List.not_mem_nil hd

theorem nodup_editsAt {u v : Value} (hu : u.everywhere Value.hasNames = true)
    (hv : v.everywhere Value.hasNames = true) : (editsAt orphans u v).Nodup := by
  induction u using Value.childInduction generalizing v with
  | step u ih =>
    cases h : u.sharesContainer v with
    | true =>
      have hbelow := nodup_structuralEdits_of_child orphans hu hv h
        fun key x y hx hy => ih key x hx (Value.everywhere_of_child? hu hx)
          (Value.everywhere_of_child? hv hy)
      rw [editsAt_of_sharesContainer h]
      refine List.nodup_append.mpr ⟨hbelow, ?_, ?_⟩
      · rw [emptiedContainer]
        split <;> [split; skip] <;> simp
      · -- What lies below a key is no edit of the container itself.
        rintro c hc _ hd rfl
        obtain ⟨key, c, -, rfl⟩ := (mem_structuralEdits hu hv h).mp hc
        rw [emptiedContainer] at hd
        split at hd <;> [split at hd; skip] <;> simp [Edit.below] at hd
    | false =>
      rw [editsAt_of_not_sharesContainer h]
      split
      · exact List.nodup_singleton _
      · split <;> simp

/-- No edit between two documents is listed twice. -/
theorem nodup_structuralEdits {u v : Value} (hu : u.everywhere Value.hasNames = true)
    (hv : v.everywhere Value.hasNames = true) : (structuralEdits orphans u v).Nodup := by
  cases h : u.sharesContainer v with
  | true =>
    exact nodup_structuralEdits_of_child orphans hu hv h fun key x y hx hy =>
      nodup_editsAt (Value.everywhere_of_child? hu hx) (Value.everywhere_of_child? hv hy)
  | false =>
    cases u <;> cases v <;>
      simp_all [structuralEdits, Value.sharesContainer]

end Containers

end ItemDelta
