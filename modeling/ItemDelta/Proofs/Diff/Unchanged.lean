import ItemDelta.Proofs.Diff.Overlap

/-!
# Documents without changes

A diff lists nothing just if nothing has changed: the two documents have the same names, list
lengths and container kinds at every place, and no two leaves differ. Whatever else is changed is
an edit, with orphans and without.

## Main definitions

* `Value.Alike` — two values are the same, but for what their containers hold.
* `Unchanged` — two documents are alike at every place.

## Main results

* `editsAt_eq_nil_iff` — two values have no edits between them if they are unchanged.
* `partition_eq_empty_iff` — no clause has a node if two documents are unchanged.
-/

namespace ItemDelta

/-- Two lists are alike if they have one length, two maps if they have the same keys, and other
    values if they do not differ. A container is like no value of another kind. -/
def Value.Alike : Value → Value → Prop
  | .list items, .list others => items.length = others.length
  | .map members, .map others => ∀ key, key ∈ Members.keys members ↔ key ∈ Members.keys others
  | u, v => u.isContainer = false ∧ v.isContainer = false ∧ u.differs v = false

/-- Wherever one of two documents has a value, the other one has a value like it. -/
def Unchanged (a b : Value) : Prop :=
  ∀ keys, Option.Rel Value.Alike (a.get? keys) (b.get? keys)

/-! ### One step down -/

section Steps

variable {u v : Value}

theorem rel_congr {α β : Type} {r s : α → β → Prop} {x : Option α} {y : Option β}
    (h : ∀ a b, x = some a → y = some b → (r a b ↔ s a b)) :
    Option.Rel r x y ↔ Option.Rel s x y := by
  cases x <;> cases y <;> simp_all

theorem isSome_eq_of_rel {α β : Type} {r : α → β → Prop} {x : Option α} {y : Option β}
    (h : Option.Rel r x y) : x.isSome = y.isSome := by
  cases h <;> rfl

/-- Two containers of one kind are alike if each key leads to a value in both, or in neither. -/
theorem alike_of_sharesContainer (hu : u.everywhere Value.hasNames = true)
    (hv : v.everywhere Value.hasNames = true) (h : u.sharesContainer v = true)
    (hchild : ∀ key, (u.child? key).isSome = (v.child? key).isSome) : u.Alike v := by
  cases u <;> cases v <;> simp only [Value.sharesContainer, Bool.false_eq_true] at h
  case list items others =>
    have hlt : ∀ i, i < items.length ↔ i < others.length := by
      intro i
      have hi := hchild (.index i)
      rwa [Value.child?, Value.child?, Bool.eq_iff_iff, isSome_getElem?, isSome_getElem?] at hi
    show items.length = others.length
    have hle := hlt items.length
    have hge := hlt others.length
    omega
  case map members others =>
    intro key
    have hkey := hchild key
    rwa [Value.child?_map (Value.test_of_everywhere hu),
      Value.child?_map (Value.test_of_everywhere hv), Bool.eq_iff_iff, Members.get?_isSome_iff,
      Members.get?_isSome_iff] at hkey

theorem alike_iff_of_not_sharesContainer (h : u.sharesContainer v = false) :
    u.Alike v ↔ u.isContainer = false ∧ v.isContainer = false ∧ u.differs v = false := by
  rw [Value.Alike]
  · rintro items others rfl rfl
    exact absurd h (by simp [Value.sharesContainer])
  · rintro members others rfl rfl
    exact absurd h (by simp [Value.sharesContainer])

theorem unchanged_iff :
    Unchanged u v ↔ u.Alike v ∧ ∀ key, Option.Rel Unchanged (u.child? key) (v.child? key) := by
  constructor
  · intro h
    have hroot := h []
    rw [Value.get?_nil, Value.get?_nil, Option.rel_some_some] at hroot
    refine ⟨hroot, fun key => ?_⟩
    have hkeys : ∀ keys, Option.Rel Value.Alike ((u.child? key).bind (·.get? keys))
        ((v.child? key).bind (·.get? keys)) := by
      intro keys
      rw [← Value.get?_cons, ← Value.get?_cons]
      exact h (key :: keys)
    cases hx : u.child? key <;> cases hy : v.child? key <;> rw [hx, hy] at hkeys
    case none.none => exact .none
    case none.some y => exact absurd (hkeys []) Option.not_rel_none_some
    case some.none x => exact absurd (hkeys []) Option.not_rel_some_none
    case some.some x y => exact .some hkeys
  · rintro ⟨hroot, hchild⟩ keys
    cases keys with
    | nil => exact .some hroot
    | cons key keys =>
      rw [Value.get?_cons, Value.get?_cons]
      have hkey := hchild key
      cases hx : u.child? key <;> cases hy : v.child? key <;> rw [hx, hy] at hkey
      case none.none => exact .none
      case none.some y => exact absurd hkey Option.not_rel_none_some
      case some.none x => exact absurd hkey Option.not_rel_some_none
      case some.some x y => exact Option.rel_some_some.mp hkey keys

theorem unchanged_iff_of_sharesContainer (hu : u.everywhere Value.hasNames = true)
    (hv : v.everywhere Value.hasNames = true) (h : u.sharesContainer v = true) :
    Unchanged u v ↔ ∀ key, Option.Rel Unchanged (u.child? key) (v.child? key) := by
  rw [unchanged_iff, and_iff_right_iff_imp]
  exact fun hchild => alike_of_sharesContainer hu hv h fun key => isSome_eq_of_rel (hchild key)

/-- Values that do not differ are of one kind, or both are numbers. -/
theorem isContainer_of_not_differs (h : u.sharesContainer v = false)
    (hdiffers : u.differs v = false) : u.isContainer = false ∧ v.isContainer = false := by
  cases u <;> cases v <;>
    simp_all [Value.sharesContainer, Value.isContainer, Value.differs, Value.isNumber, Value.kind]

theorem differs_of_deletes (h : deletes u v = true) : u.differs v = true := by
  cases u <;> cases v <;>
    simp_all [deletes, Value.nullified, Value.emptied, Value.isEmptyText, Value.differs,
      Value.isNumber, Value.kind, Value.agrees]

theorem child?_of_not_isContainer (h : u.isContainer = false) (key : Key) :
    u.child? key = none := by
  cases u <;> cases key <;> simp_all [Value.isContainer, Value.child?]

theorem unchanged_iff_of_not_sharesContainer (h : u.sharesContainer v = false) :
    Unchanged u v ↔ u.differs v = false := by
  rw [unchanged_iff, alike_iff_of_not_sharesContainer h]
  constructor
  · exact fun h => h.1.2.2
  · intro hdiffers
    obtain ⟨hu, hv⟩ := isContainer_of_not_differs h hdiffers
    refine ⟨⟨hu, hv, hdiffers⟩, fun key => ?_⟩
    rw [child?_of_not_isContainer hu, child?_of_not_isContainer hv]
    exact .none

end Steps

/-! ### No edits -/

section Edits

variable {orphans : Bool} {u v : Value}

theorem leafEdits_ne_nil (bucket : Bucket) (hv : v.everywhere Value.hasNames = true) :
    leafEdits bucket v ≠ [] := by
  induction v using Value.childInduction with
  | step v ih =>
    cases hinternal : v.isInternal with
    | false =>
      rw [leafEdits_of_not_isInternal hinternal]
      exact List.cons_ne_nil _ _
    | true =>
      obtain ⟨key, w, hw⟩ := (isInternal_iff hv).mp hinternal
      obtain ⟨c, hc⟩ := List.exists_mem_of_ne_nil _ (ih key w hw (Value.everywhere_of_child? hv hw))
      have hmem := (mem_leafEdits_of_isInternal hv hinternal).mpr ⟨key, w, hw, c, hc, rfl⟩
      exact List.ne_nil_of_mem hmem

theorem editsBetween_eq_nil_iff {x y : Option Value}
    (hx : ∀ u, x = some u → u.everywhere Value.hasNames = true)
    (hy : ∀ v, y = some v → v.everywhere Value.hasNames = true) :
    editsBetween orphans x y = [] ↔ Option.Rel (fun u v => editsAt orphans u v = []) x y := by
  cases x <;> cases y <;> rw [editsBetween]
  case none.none => exact iff_of_true rfl .none
  case none.some v =>
    refine iff_of_false ?_ Option.not_rel_none_some
    rw [additions]
    split
    · exact leafEdits_ne_nil .add (hy v rfl)
    · exact List.cons_ne_nil _ _
  case some.none u =>
    exact iff_of_false (leafEdits_ne_nil .delete (hx u rfl)) Option.not_rel_some_none
  case some.some u v => rw [Option.rel_some_some]

theorem structuralEdits_eq_nil_iff_of_child (hu : u.everywhere Value.hasNames = true)
    (hv : v.everywhere Value.hasNames = true) (h : u.sharesContainer v = true)
    (hchild : ∀ key x y, u.child? key = some x → v.child? key = some y →
      (editsAt orphans x y = [] ↔ Unchanged x y)) :
    structuralEdits orphans u v = [] ↔ Unchanged u v := by
  have hbetween : ∀ key, editsBetween orphans (u.child? key) (v.child? key) = [] ↔
      Option.Rel Unchanged (u.child? key) (v.child? key) := by
    intro key
    rw [editsBetween_eq_nil_iff (fun x hx => Value.everywhere_of_child? hu hx)
      fun y hy => Value.everywhere_of_child? hv hy]
    exact rel_congr (hchild key)
  rw [unchanged_iff_of_sharesContainer hu hv h]
  simp only [← hbetween, List.eq_nil_iff_forall_not_mem, mem_structuralEdits hu hv h]
  constructor
  · exact fun hnone key c hc => hnone _ ⟨key, c, hc, rfl⟩
  · rintro hnone _ ⟨key, c, hc, -⟩
    exact hnone key c hc

/-- There is no edit between two values just if they are unchanged. -/
theorem editsAt_eq_nil_iff (hu : u.everywhere Value.hasNames = true)
    (hv : v.everywhere Value.hasNames = true) : editsAt orphans u v = [] ↔ Unchanged u v := by
  induction u using Value.childInduction generalizing v with
  | step u ih =>
    cases h : u.sharesContainer v with
    | true =>
      rw [editsAt_of_sharesContainer h, List.append_eq_nil_iff,
        structuralEdits_eq_nil_iff_of_child hu hv h fun key x y hx hy =>
          ih key x hx (Value.everywhere_of_child? hu hx) (Value.everywhere_of_child? hv hy),
        and_iff_left_iff_imp, unchanged_iff_of_sharesContainer hu hv h]
      intro hchild
      refine if_neg fun hemptied => ?_
      -- What the filled container holds has a counterpart, so that the other one is not empty.
      rw [Bool.and_eq_true, Bool.not_eq_true', isInternal_iff hu] at hemptied
      obtain ⟨⟨key, x, hx⟩, hempty⟩ := hemptied
      have hkey := isSome_eq_of_rel (hchild key)
      rw [hx, child?_of_not_isInternal hempty] at hkey
      cases hkey
    | false =>
      rw [editsAt_of_not_sharesContainer h, unchanged_iff_of_not_sharesContainer h]
      constructor
      · intro hnone
        split at hnone
        · cases hnone
        · split at hnone
          · cases hnone
          · rename_i hdiffers
            exact (Bool.or_eq_false_iff.mp ((Bool.not_eq_true _).mp hdiffers)).2
      · intro hdiffers
        obtain ⟨hu, hv⟩ := isContainer_of_not_differs h hdiffers
        have hdeletes : ¬deletes u v = true := fun hdeletes => by
          rw [differs_of_deletes hdeletes] at hdiffers
          cases hdiffers
        have hinternal : ∀ {w : Value}, w.isContainer = false → w.isInternal = false := by
          intro w hw
          cases w <;> simp_all [Value.isContainer, Value.isInternal]
        rw [if_neg hdeletes, if_neg]
        simp [hinternal hu, hinternal hv, hdiffers]

theorem structuralEdits_eq_nil_iff (hu : u.everywhere Value.hasNames = true)
    (hv : v.everywhere Value.hasNames = true) (h : u.sharesContainer v = true) :
    structuralEdits orphans u v = [] ↔ Unchanged u v :=
  structuralEdits_eq_nil_iff_of_child hu hv h fun _ _ _ hx hy =>
    editsAt_eq_nil_iff (Value.everywhere_of_child? hu hx) (Value.everywhere_of_child? hv hy)

/-- No clause has a node just if two documents are unchanged. -/
theorem partition_eq_empty_iff {a b : Value} (ha : a.IsDocument) (hb : b.IsDocument)
    {supportSets : Bool} {nodes : Partition}
    (h : partition a b orphans supportSets = .ok nodes) :
    nodes = ⟨[], [], []⟩ ↔ Unchanged a b := by
  have hshares := sharesContainer_of_isDocument ha hb
  rw [partition] at h
  cases hdiff : diff a b orphans with
  | error fault =>
    rw [hdiff] at h
    cases h
  | ok d =>
    rw [hdiff] at h
    obtain ⟨ha, hb, rfl⟩ := eq_structuralDiff_of_diff ha.named hb.named hshares hdiff
    have hperm := Diff.perm_of_partition (fun n hn => by
      obtain ⟨keys, w, hc, rfl⟩ := mem_bucketNodes.mp hn
      rw [mem_structuralEdits_iff ha.named hb.named hshares] at hc
      exact ⟨keys, rfl, isLegible_of_isEdit ha hb hc.2⟩) h
    have hnodes := hperm.trans (structuralDiff_perm orphans a b)
    rw [← structuralEdits_eq_nil_iff ha.named hb.named hshares, ← List.map_eq_nil_iff]
    constructor
    · rintro rfl
      exact hnodes.nil_eq.symm
    · intro hnone
      rw [hnone, List.perm_nil, List.append_eq_nil_iff, List.append_eq_nil_iff] at hnodes
      obtain ⟨set, remove, delete⟩ := nodes
      obtain ⟨⟨rfl, rfl⟩, rfl⟩ := hnodes
      rfl

end Edits

end ItemDelta
