import ItemDelta.Diff.Patch
import ItemDelta.Proofs.Diff.Application
import ItemDelta.Proofs.Diff.Buckets
import ItemDelta.Proofs.Diff.Merge
import ItemDelta.Proofs.Value.Agreement

/-!
# Patching with a diff

The diff of two documents, applied to the first of them, gives the structural merge of both.

## Main definitions

* `EditsOf` — a list of all edits between two values.

## Main results

* `exists_runSlotEdits` — any such list, applied to one value, gives the merge of both.
* `exists_runEdits_of_perm` — the same for two documents.
* `exists_patchWith_diff` — a document patched with a diff is the merge of both documents.

## Design notes

The buckets of a diff are sorted by the text of paths, which is no order that fits the structure of
a document: the tenth element of a list comes before the second one. So nothing is said here about
the order of the edits. What they give is told up to a relation that containers inherit: agreement,
which overlooks how numbers are represented, or one that overlooks the order of members only.
-/

namespace ItemDelta

/-- Whether a list fits into memory, as every list that a program holds does. -/
def Value.fitsMemory : Value → Bool
  | .list items => decide (items.length < memoryListLength)
  | _ => true

/-- The positions that lead to a value in a document are those of elements in memory. -/
theorem position_lt_of_get? {v w : Value} {keys : List Key}
    (hmemory : v.everywhere Value.fitsMemory = true) (hget : v.get? keys = some w) :
    ∀ position, .index position ∈ keys → position + 1 < Value.memoryListLength := by
  induction keys generalizing v with
  | nil => exact nofun
  | cons key keys ih =>
    rw [Value.get?_cons, Option.bind_eq_some_iff] at hget
    obtain ⟨child, hchild, hget⟩ := hget
    intro position hposition
    rcases List.mem_cons.mp hposition with rfl | hposition
    · cases v with
      | list items =>
        have hlength := of_decide_eq_true (Value.test_of_everywhere hmemory)
        have hlt := (List.getElem?_eq_some_iff.mp hchild).1
        omega
      | _ => cases hchild
    · exact ih (Value.everywhere_of_child? hmemory hchild) hget position hposition

/-- The edits between two values in a list, each of them once and in any order. -/
structure EditsOf (orphans : Bool) (u v : Option Value) (edits : List Edit) : Prop where
  nodup : edits.Nodup
  mem_iff : ∀ c, c ∈ edits ↔ IsEdit orphans u v c

section Edits

variable {orphans : Bool} {u v : Option Value} {edits : List Edit} {c d : Edit} {key : Key}

theorem not_isEdit_none : ¬IsEdit orphans none none c := by
  intro h
  have hhere := h.here
  simp [readAt, editHere] at hhere

theorem IsEdit.bucket_of_right_none (h : IsEdit orphans u none c) : c.bucket = .delete := by
  have hhere := h.here
  rw [show readAt none c.keys = none from rfl] at hhere
  cases hread : readAt u c.keys with
  | none => simp [hread, editHere] at hhere
  | some x =>
    rw [hread, editHere, Option.ite_none_left_eq_some, Option.some.injEq, Prod.mk.injEq] at hhere
    exact hhere.2.1.symm

/-- If nothing lies below two values, all there can be is an edit of the values themselves. -/
theorem isEdit_iff_of_leaf (h : descends orphans u v = true →
      ∀ key, u.bind (·.child? key) = none ∧ v.bind (·.child? key) = none) :
    IsEdit orphans u v c ↔ c.keys = [] ∧ editHere orphans u v = some (c.bucket, c.value) := by
  obtain ⟨bucket, keys, w⟩ := c
  cases keys with
  | nil => simp [isEdit_nil_iff]
  | cons key keys =>
    have hbelow : (⟨bucket, key :: keys, w⟩ : Edit) = Edit.below key ⟨bucket, keys, w⟩ := rfl
    rw [hbelow, isEdit_below_iff]
    constructor
    · rintro ⟨hdescends, hedit⟩
      rw [(h hdescends key).1, (h hdescends key).2] at hedit
      exact absurd hedit not_isEdit_none
    · rintro ⟨hkeys, -⟩
      simp [Edit.below] at hkeys

/-- The edits below a key are those of the values below it. -/
theorem EditsOf.below (h : EditsOf orphans u v edits) (hdescends : descends orphans u v = true)
    (key : Key) :
    EditsOf orphans (u.bind (·.child? key)) (v.bind (·.child? key)) (editsBelow key edits) where
  nodup := by
    refine h.nodup.filterMap fun c d e hc hd => ?_
    rw [below?_eq_some_iff.mp hc, below?_eq_some_iff.mp hd]
  mem_iff c := by
    rw [mem_editsBelow, h.mem_iff, isEdit_below_iff, and_iff_right hdescends]

theorem EditsOf.eq_singleton (h : EditsOf orphans u v edits)
    (hc : ∀ d, IsEdit orphans u v d ↔ d = c) : edits = [c] := by
  refine List.perm_singleton.mp ((List.perm_ext_iff_of_nodup h.nodup (by simp)).mpr fun d => ?_)
  rw [h.mem_iff, hc, List.mem_singleton]

theorem EditsOf.eq_nil (h : EditsOf orphans u v edits) (hc : ∀ d, ¬IsEdit orphans u v d) :
    edits = [] :=
  List.eq_nil_iff_forall_not_mem.mpr fun d hd => hc d ((h.mem_iff d).mp hd)

theorem EditsOf.eq_singleton_of_leaf (h : EditsOf orphans u v edits) {bucket : Bucket} {w : Value}
    (hleaf : descends orphans u v = true →
      ∀ key, u.bind (·.child? key) = none ∧ v.bind (·.child? key) = none)
    (hhere : editHere orphans u v = some (bucket, w)) : edits = [⟨bucket, [], w⟩] := by
  refine h.eq_singleton fun d => ?_
  rw [isEdit_iff_of_leaf hleaf, hhere]
  obtain ⟨other, keys, x⟩ := d
  simp only [Option.some.injEq, Prod.mk.injEq, Edit.mk.injEq]
  tauto

end Edits

/-! ### Containers -/

section Containers

variable {related : Value → Value → Prop} {orphans : Bool} {u v : Value} {edits : List Edit}

theorem Follows.eq_getD {items : List Value} {i : Nat} {slot : Option Value} {x : Value}
    (h : Follows items i slot) (hx : items[i]? = some x) : x = slot.getD .null := by
  rcases h with h | ⟨rfl, h⟩
  · rw [← h, hx, Option.getD_some]
  · rw [h, Option.some.injEq] at hx
    exact hx.symm

theorem Value.IsCongruence.getD (hcongr : Value.IsCongruence related) {r m : Option Value}
    (h : Option.Rel related r m) : related (r.getD .null) (m.getD .null) := by
  cases h with
  | none => exact hcongr.null
  | some hrelated => exact hrelated

theorem exists_runEdits_of_get? (hcongr : Value.IsCongruence related) {members others : Members}
    {r : Key → Option Value}
    (hmembers : (Value.map members).hasNames = true) (hothers : (Value.map others).hasNames = true)
    (hheads : ∀ c ∈ edits, ∃ key d, c = Edit.below key d ∧
      ((members.get? key).isSome = true ∨ (others.get? key).isSome = true))
    (hrun : ∀ key, runSlotEdits (editsBelow key edits) (members.get? key) = .ok (r key))
    (hrelated : ∀ key, Option.Rel related (r key)
      (mergeBetween orphans (members.get? key) (others.get? key))) :
    ∃ w, runEdits edits (.map members) = .ok w ∧
      related w (mergeRoots orphans (.map members) (.map others)) := by
  have hkeys := Value.nodup_keys_of_hasNames hmembers
  have hotherKeys := Value.nodup_keys_of_hasNames hothers
  have hnames : ∀ c ∈ edits, ∃ text d, c = Edit.below (.name text) d := by
    intro c hc
    obtain ⟨key, d, rfl, hsome⟩ := hheads c hc
    rw [Members.get?_isSome_iff, Members.get?_isSome_iff] at hsome
    obtain ⟨text, rfl⟩ := hsome.elim (Value.exists_name_of_hasNames hmembers)
      (Value.exists_name_of_hasNames hothers)
    exact ⟨text, d, rfl⟩
  obtain ⟨final, hfinal, hfinalKeys, hget⟩ := exists_runEdits_map hnames hkeys hrun
  refine ⟨.map final, hfinal, hcongr.map hfinalKeys
    (nodup_keys_mergedMembers hkeys hotherKeys) fun key => ?_⟩
  rw [hget, get?_mergedMembers hkeys]
  exact hrelated key

/-- The last element of a longer list is there because something was written to it. -/
theorem length_le_of_follows {items others final : List Value} {r : Nat → Option Value}
    (hlonger : items.length ≤ final.length) (hfollows : ∀ i, Follows final i (r i))
    (hrelated : ∀ i, Option.Rel related (r i) (mergeBetween orphans items[i]? others[i]?)) :
    max items.length others.length ≤ final.length := by
  by_contra hshort
  -- Otherwise nothing stands right behind the end, where the merge has an element.
  have hi : items.length ≤ final.length ∧ final.length < others.length := by omega
  have hrel := hrelated final.length
  rw [List.getElem?_eq_none hi.1, mergeBetween, List.getElem?_eq_getElem hi.2] at hrel
  have hnone : final[final.length]? = none := List.getElem?_eq_none (Nat.le_refl _)
  rcases hfollows final.length with heq | ⟨heq, -⟩
  · rw [← heq, hnone] at hrel
    cases hrel
  · rw [heq] at hrel
    cases hrel

theorem exists_runEdits_of_getElem? (hcongr : Value.IsCongruence related)
    {items others : List Value} {r : Nat → Option Value}
    (hmemory : others.length < Value.memoryListLength)
    (hheads : ∀ c ∈ edits, ∃ i d, c = Edit.below (.index i) d ∧
      (i < items.length ∨ i < others.length))
    (hrun : ∀ i, runSlotEdits (editsBelow (.index i) edits) items[i]? = .ok (r i))
    (hrelated : ∀ i, Option.Rel related (r i) (mergeBetween orphans items[i]? others[i]?)) :
    ∃ w, runEdits edits (.list items) = .ok w ∧
      related w (mergeRoots orphans (.list items) (.list others)) := by
  -- Past the end of the base list, a position is one of the modified list, which is in memory.
  have hindices : ∀ c ∈ edits, ∃ i d, c = Edit.below (.index i) d ∧
      i < max items.length others.length ∧
      (i < items.length ∨ i + 1 < Value.memoryListLength) := by
    intro c hc
    obtain ⟨i, d, rfl, hi⟩ := hheads c hc
    exact ⟨i, d, rfl, by omega, by omega⟩
  obtain ⟨final, hfinal, hlonger, hshorter, hfollows⟩ := exists_runEdits_list hindices
    (Nat.le_max_left _ _) (fun i => .inl rfl) hrun
  have hlast := length_le_of_follows hlonger hfollows hrelated
  refine ⟨.list final, hfinal, hcongr.list ?_ fun i x y hx hy => ?_⟩
  · rw [length_mergedItems]
    omega
  · have hi : i < max items.length others.length := by
      rw [← @length_mergedItems orphans]
      exact (List.getElem?_eq_some_iff.mp hy).1
    rw [getElem?_mergedItems hi, Option.some.injEq] at hy
    rw [← hy, (hfollows i).eq_getD hx]
    exact hcongr.getD (hrelated i)

/-- If the edits below each key give the merge of what lies below it, all of them give the merge of
    the containers. -/
theorem exists_runEdits_of_child? (hcongr : Value.IsCongruence related) (orphans : Bool)
    (hu : u.everywhere Value.hasNames = true)
    (hv : v.everywhere Value.hasNames = true) (hmemory : v.fitsMemory = true)
    (hshares : u.sharesContainer v = true)
    (hheads : ∀ c ∈ edits, ∃ key d, c = Edit.below key d ∧
      ((u.child? key).isSome = true ∨ (v.child? key).isSome = true))
    (h : ∀ key, ∃ r, runSlotEdits (editsBelow key edits) (u.child? key) = .ok r ∧
      Option.Rel related r (mergeBetween orphans (u.child? key) (v.child? key))) :
    ∃ w, runEdits edits u = .ok w ∧ related w (mergeRoots orphans u v) := by
  choose r hrun hrelated using h
  cases u <;> cases v <;> simp only [Value.sharesContainer, Bool.false_eq_true] at hshares
  case map members others =>
    have hmembers := Value.test_of_everywhere hu
    have hothers := Value.test_of_everywhere hv
    simp only [Value.child?_map hmembers, Value.child?_map hothers] at hheads hrun hrelated
    exact exists_runEdits_of_get? hcongr hmembers hothers hheads hrun hrelated
  case list items others =>
    refine exists_runEdits_of_getElem? hcongr (of_decide_eq_true hmemory) (fun c hc => ?_)
      (fun i => hrun (.index i)) fun i => hrelated (.index i)
    obtain ⟨key, d, rfl, hsome⟩ := hheads c hc
    cases key with
    | name text => simp [Value.child?] at hsome
    | index i => exact ⟨i, d, rfl, by simpa [Value.child?] using hsome⟩

/-- If the edits below each key can be run, and each key leads to a value, then all of them can be
    run on the container. -/
theorem exists_runEdits_of_runSlotEdits (hu : u.everywhere Value.hasNames = true)
    (hcontainer : u.isContainer = true)
    (hheads : ∀ c ∈ edits, ∃ key d, c = Edit.below key d ∧ (u.child? key).isSome = true)
    (h : ∀ key, ∃ r, runSlotEdits (editsBelow key edits) (u.child? key) = .ok r) :
    ∃ w, runEdits edits u = .ok w := by
  choose r hrun using h
  cases u <;> simp only [Value.isContainer, Bool.false_eq_true] at hcontainer
  case map members =>
    have hmembers := Value.test_of_everywhere hu
    simp only [Value.child?_map hmembers, Members.get?_isSome_iff] at hheads hrun
    obtain ⟨final, hfinal, -⟩ := exists_runEdits_map (fun c hc => by
      obtain ⟨key, d, rfl, hkey⟩ := hheads c hc
      obtain ⟨text, rfl⟩ := Value.exists_name_of_hasNames hmembers hkey
      exact ⟨text, d, rfl⟩) (Value.nodup_keys_of_hasNames hmembers) hrun
    exact ⟨.map final, hfinal⟩
  case list items =>
    obtain ⟨final, hfinal, -⟩ := exists_runEdits_list (n := items.length) (fun c hc => by
      obtain ⟨key, d, rfl, hsome⟩ := hheads c hc
      cases key with
      | name text => simp [Value.child?] at hsome
      | index i =>
        have hi : i < items.length := by simpa [Value.child?] using hsome
        exact ⟨i, d, rfl, hi, .inl hi⟩) (Nat.le_refl _) (fun i => .inl rfl)
      fun i => hrun (.index i)
    exact ⟨.list final, hfinal⟩

/-- Nothing can be removed from an empty container. -/
theorem remove_of_not_isInternal {keys : List Key} (hv : v.isContainer = true)
    (hempty : v.isInternal = false) (hne : keys ≠ []) : v.remove keys = .ok v := by
  obtain ⟨key, rest, rfl⟩ := List.exists_cons_of_ne_nil hne
  cases rest with
  | nil =>
    rw [remove_singleton]
    cases v <;> simp only [Value.isContainer, Bool.false_eq_true] at hv
    case map members =>
      rw [Value.isInternal, Bool.not_eq_false', List.isEmpty_iff] at hempty
      rw [hempty]
      rfl
    case list items =>
      rw [Value.isInternal, Bool.not_eq_false', List.isEmpty_iff] at hempty
      rw [hempty]
      cases key <;> rfl
  | cons next rest =>
    rw [Value.remove, List.getLast?_cons_cons, List.dropLast_cons_cons]
    cases hlast : (next :: rest).getLast? with
    | none => simp at hlast
    | some last =>
      show v.removeAt (key :: (next :: rest).dropLast) last = .ok v
      rw [Value.removeAt, child?_of_not_isInternal hempty]

theorem runSlotEdits_of_not_isInternal (hv : v.isContainer = true) (hempty : v.isInternal = false)
    (h : ∀ c ∈ edits, c.keys ≠ [] ∧ c.bucket = .delete) :
    runSlotEdits edits (some v) = .ok (some v) := by
  induction edits with
  | nil => rfl
  | cons c edits ih =>
    obtain ⟨hne, hbucket⟩ := h c List.mem_cons_self
    have hstep : c.runSlot (some v) = .ok (some v) := by
      obtain ⟨key, keys, hkeys⟩ := List.exists_cons_of_ne_nil hne
      unfold Edit.runSlot
      rw [if_pos hbucket, hkeys]
      show (v.remove (key :: keys)).map some = .ok (some v)
      rw [remove_of_not_isInternal hv hempty (List.cons_ne_nil _ _)]
      rfl
    rw [runSlotEdits_cons, hstep]
    exact ih fun d hd => h d (List.mem_cons_of_mem c hd)

end Containers

/-! ### Values -/

section Values

variable {related : Value → Value → Prop} {orphans : Bool} {edits : List Edit}

/-- There are edits below a key only if there is a value. -/
theorem EditsOf.exists_head {u v : Option Value} (h : EditsOf orphans u v edits) {c : Edit}
    (hc : c ∈ edits) (hne : c.keys ≠ []) : ∃ key d, c = Edit.below key d ∧
      ((u.bind (·.child? key)).isSome = true ∨ (v.bind (·.child? key)).isSome = true) := by
  obtain ⟨bucket, keys, w⟩ := c
  cases keys with
  | nil => exact absurd rfl hne
  | cons key keys =>
    have hbelow : (⟨bucket, key :: keys, w⟩ : Edit) = Edit.below key ⟨bucket, keys, w⟩ := rfl
    refine ⟨key, ⟨bucket, keys, w⟩, rfl, ?_⟩
    by_contra hnone
    rw [not_or, Bool.not_eq_true, Option.isSome_eq_false_iff, Option.isNone_iff_eq_none,
      Bool.not_eq_true, Option.isSome_eq_false_iff, Option.isNone_iff_eq_none] at hnone
    have hedit := (h.mem_iff _).mp hc
    rw [hbelow, isEdit_below_iff, hnone.1, hnone.2] at hedit
    exact not_isEdit_none hedit.2

theorem EditsOf.keys_ne_nil {u v : Option Value} (h : EditsOf orphans u v edits)
    (hhere : editHere orphans u v = none) {c : Edit} (hc : c ∈ edits) : c.keys ≠ [] := by
  obtain ⟨bucket, keys, w⟩ := c
  rintro rfl
  have hedit := (h.mem_iff _).mp hc
  rw [isEdit_nil_iff, hhere] at hedit
  cases hedit

theorem EditsOf.bucket_ne_delete {v : Option Value} (h : EditsOf orphans none v edits) {c : Edit}
    (hc : c ∈ edits) : c.bucket ≠ .delete := by
  intro hbucket
  have hhere := ((h.mem_iff c).mp hc).here
  rw [hbucket, editHere_eq_delete_iff] at hhere
  cases hhere.1

theorem sharesContainer_emptyLike {v : Value} (h : v.isInternal = true) :
    v.emptyLike.sharesContainer v = true ∧ v.sharesContainer v.emptyLike = true := by
  cases v <;> simp only [Value.isInternal, Bool.false_eq_true] at h <;> exact ⟨rfl, rfl⟩

theorem child?_emptyLike (v : Value) (key : Key) : v.emptyLike.child? key = none :=
  child?_of_not_isInternal (by cases v <;> rfl) key

theorem hasNames_emptyLike (v : Value) : v.emptyLike.everywhere Value.hasNames = true := by
  cases v <;> rfl

theorem mergeRoots_emptyLike {v : Value} (h : v.isInternal = true) :
    mergeRoots orphans v.emptyLike v = v := by
  cases v <;> simp only [Value.isInternal, Bool.false_eq_true] at h
  case list items => rfl
  case map members =>
    have hbeyond : membersBeyond [] members = members := List.filter_eq_self.mpr fun _ _ => rfl
    show Value.map ([] ++ membersBeyond [] members) = .map members
    rw [List.nil_append, hbeyond]

theorem runSlotEdits_none {v : Value} {c : Edit} (hc : c ∈ edits)
    (hheads : ∀ c ∈ edits, c.bucket ≠ .delete ∧ ∃ key d, c = Edit.below key d ∧
      Value.emptyAbove key = v) :
    runSlotEdits edits none = runSlotEdits edits (some v) := by
  cases edits with
  | nil => exact absurd hc List.not_mem_nil
  | cons e edits =>
    obtain ⟨hbucket, key, d, rfl, hempty⟩ := hheads e List.mem_cons_self
    have hstep : (d.below key).runSlot none = (d.below key).runSlot (some v) := by
      have hcontainer : containerFor key none = containerFor key (some v) := by
        rw [← hempty]
        cases key <;> rfl
      unfold Edit.runSlot
      rw [if_neg hbucket, if_neg hbucket]
      simp only [Edit.below, hcontainer]
    rw [runSlotEdits_cons, runSlotEdits_cons, hstep]

/-- A filled container that is missing is written leaf by leaf. -/
theorem exists_runSlotEdits_none_of_isInternal (hcongr : Value.IsCongruence related) {v : Value}
    (hv : v.IsSelfRelated related)
    (hmemory : v.fitsMemory = true) (hinternal : v.isInternal = true)
    (h : EditsOf true none (some v) edits)
    (hchild : ∀ key, ∃ r, runSlotEdits (editsBelow key edits) (v.emptyLike.child? key) = .ok r ∧
      Option.Rel related r (mergeBetween true (v.emptyLike.child? key) (v.child? key))) :
    ∃ r, runSlotEdits edits none = .ok r ∧ Option.Rel related r (some v) := by
  have hheads : ∀ c ∈ edits, ∃ key d, c = Edit.below key d ∧ (v.child? key).isSome = true := by
    intro c hc
    have hhere : editHere true none (some v) = none := by
      rw [editHere, Bool.true_and, if_pos hinternal]
    obtain ⟨key, d, rfl, hnone | hsome⟩ := h.exists_head hc (h.keys_ne_nil hhere hc)
    · cases hnone
    · exact ⟨key, d, rfl, hsome⟩
  obtain ⟨w, hrun, hrelated⟩ := exists_runEdits_of_child? hcongr true (hasNames_emptyLike v)
    hv.named hmemory (sharesContainer_emptyLike hinternal).1 (fun c hc => by
      obtain ⟨key, d, rfl, hsome⟩ := hheads c hc
      exact ⟨key, d, rfl, .inr hsome⟩) hchild
  rw [mergeRoots_emptyLike hinternal] at hrelated
  -- The value that lies below some key has to be written.
  obtain ⟨c, hc⟩ : ∃ c, c ∈ edits := by
    by_contra hnone
    have hnil : edits = [] := List.eq_nil_iff_forall_not_mem.mpr fun c hc => hnone ⟨c, hc⟩
    obtain ⟨key, x, hx⟩ := (isInternal_iff hv.named).mp hinternal
    obtain ⟨r, hr, hrel⟩ := hchild key
    rw [child?_emptyLike, hx, mergeBetween] at hrel
    rw [hnil, child?_emptyLike] at hr
    cases hr
    cases hrel
  -- The first edit creates the container, so the rest may as well start from an empty one.
  have hempty : runSlotEdits edits none = runSlotEdits edits (some v.emptyLike) := by
    refine runSlotEdits_none hc fun e he => ⟨h.bucket_ne_delete he, ?_⟩
    obtain ⟨key, d, rfl, hsome⟩ := hheads e he
    refine ⟨key, d, rfl, ?_⟩
    cases v <;> cases key <;> simp only [Value.child?, Option.isSome_none,
      Bool.false_eq_true] at hsome <;> rfl
  have hcontainer : v.emptyLike.isContainer = true := by cases v <;> rfl
  refine ⟨some w, ?_, .some hrelated⟩
  rw [hempty, runSlotEdits_some hcontainer, hrun]
  · rfl
  · intro e he
    obtain ⟨key, d, rfl, -⟩ := hheads e he
    exact List.cons_ne_nil _ _

theorem exists_runSlotEdits_none (hcongr : Value.IsCongruence related) {v : Value}
    (hv : v.IsSelfRelated related)
    (hmemory : v.everywhere Value.fitsMemory = true)
    (h : EditsOf orphans none (some v) edits) :
    ∃ r, runSlotEdits edits none = .ok r ∧ Option.Rel related r (some v) := by
  induction v using Value.childInduction generalizing edits with
  | step v ih =>
    by_cases hleaves : orphans = true ∧ v.isInternal = true
    · obtain ⟨rfl, hinternal⟩ := hleaves
      refine exists_runSlotEdits_none_of_isInternal hcongr hv (Value.test_of_everywhere hmemory)
        hinternal h fun key => ?_
      rw [child?_emptyLike, mergeBetween]
      have hbelow := h.below rfl key
      rw [Option.bind_none, Option.bind_some] at hbelow
      cases hw : v.child? key with
      | none =>
        rw [hw] at hbelow
        rw [hbelow.eq_nil fun d => not_isEdit_none]
        exact ⟨none, rfl, .none⟩
      | some w =>
        rw [hw] at hbelow
        exact ih key w hw (hv.child hw) (Value.everywhere_of_child? hmemory hw) hbelow
    · -- The value is added as a whole.
      have hhere : editHere orphans none (some v) = some (.add, v) := by
        rw [editHere]
        simp only [Bool.and_eq_true, hleaves, if_false]
      have hedits := h.eq_singleton_of_leaf (fun hdescends key => by
        rw [descends] at hdescends
        have hleaf : v.isInternal = false := by
          rw [← Bool.not_eq_true]
          exact fun hinternal => hleaves ⟨hdescends, hinternal⟩
        exact ⟨rfl, child?_of_not_isInternal hleaf key⟩) hhere
      rw [hedits]
      exact ⟨some v, rfl, .some hv.self⟩

/-- The edits of a container that is emptied as a whole are the addition of the empty one and
    deletions of what the container holds, in any order. -/
theorem EditsOf.exists_eq_append_of_add {u v : Value} (h : EditsOf orphans (some u) (some v) edits)
    (hhere : editHere orphans (some u) (some v) = some (.add, v)) (hv : v.isInternal = false) :
    ∃ before after, edits = before ++ ⟨.add, [], v⟩ :: after ∧
      ∀ c ∈ before ++ after, c.keys ≠ [] ∧ c.bucket = .delete := by
  have hadd : (⟨.add, [], v⟩ : Edit) ∈ edits :=
    (h.mem_iff _).mpr (isEdit_nil_iff.mpr hhere)
  have hother : ∀ c ∈ edits, c ≠ ⟨.add, [], v⟩ → c.keys ≠ [] ∧ c.bucket = .delete := by
    rintro ⟨bucket, keys, w⟩ hc hne
    have hedit := (h.mem_iff _).mp hc
    cases keys with
    | nil =>
      rw [isEdit_nil_iff, hhere, Option.some.injEq, Prod.mk.injEq] at hedit
      obtain ⟨rfl, rfl⟩ := hedit
      exact absurd rfl hne
    | cons key keys =>
      -- The empty container has no values, so those below the other one are all gone.
      have hbelow := (isEdit_below_iff (c := ⟨bucket, keys, w⟩)).mp hedit
      rw [Option.bind_some, Option.bind_some, child?_of_not_isInternal hv] at hbelow
      exact ⟨List.cons_ne_nil _ _, hbelow.2.bucket_of_right_none⟩
  obtain ⟨before, after, rfl⟩ := List.append_of_mem hadd
  have hnodup := List.nodup_middle.mp h.nodup
  refine ⟨before, after, rfl, fun c hc => hother c ?_ ?_⟩
  · exact List.perm_middle.mem_iff.mpr (List.mem_cons_of_mem _ hc)
  · rintro rfl
    exact (List.nodup_cons.mp hnodup).1 hc

/-- A place that may hold no value becomes the merge there if it does when it holds one. -/
theorem exists_runSlotEdits_of_some (hcongr : Value.IsCongruence related) {u v : Option Value}
    (hv : ∀ y, v = some y → y.IsSelfRelated related ∧ y.everywhere Value.fitsMemory = true)
    (h : EditsOf orphans u v edits)
    (hsome : ∀ x, u = some x → ∃ r, runSlotEdits edits u = .ok r ∧
      Option.Rel related r (mergeBetween orphans u v)) :
    ∃ r, runSlotEdits edits u = .ok r ∧ Option.Rel related r (mergeBetween orphans u v) := by
  cases u with
  | some x => exact hsome x rfl
  | none =>
    cases v with
    | none =>
      rw [h.eq_nil fun d => not_isEdit_none]
      exact ⟨none, rfl, .none⟩
    | some y => exact exists_runSlotEdits_none hcongr (hv y rfl).1 (hv y rfl).2 h

/-- What stands below a value after its edits is the merge if what stands below its keys is. -/
theorem exists_runSlotEdits_of_child? (hcongr : Value.IsCongruence related) (orphans : Bool)
    {u v : Value} (hu : u.everywhere Value.hasNames = true)
    (hv : v.everywhere Value.hasNames = true) (hmemory : v.fitsMemory = true)
    (hshares : u.sharesContainer v = true) (hkeys : ∀ c ∈ edits, c.keys ≠ [])
    (hheads : ∀ c ∈ edits, ∃ key d, c = Edit.below key d ∧
      ((u.child? key).isSome = true ∨ (v.child? key).isSome = true))
    (h : ∀ key, ∃ r, runSlotEdits (editsBelow key edits) (u.child? key) = .ok r ∧
      Option.Rel related r (mergeBetween orphans (u.child? key) (v.child? key))) :
    ∃ w, runSlotEdits edits (some u) = .ok (some w) ∧
      related w (mergeRoots orphans u v) := by
  obtain ⟨w, hrun, hrelated⟩ :=
    exists_runEdits_of_child? hcongr orphans hu hv hmemory hshares hheads h
  have hcontainer : u.isContainer = true := by
    cases u <;> cases v <;> simp only [Value.sharesContainer, Bool.false_eq_true] at hshares <;> rfl
  refine ⟨w, ?_, hrelated⟩
  rw [runSlotEdits_some hcontainer hkeys, hrun]
  rfl

theorem exists_runSlotEdits_some_none (hcongr : Value.IsCongruence related) {u : Value}
    (hu : u.everywhere Value.hasNames = true)
    (h : EditsOf orphans (some u) none edits)
    (hchild : ∀ key, ∃ r, runSlotEdits (editsBelow key edits) (u.child? key) = .ok r ∧
      Option.Rel related r (mergeBetween orphans (u.child? key) none)) :
    ∃ r, runSlotEdits edits (some u) = .ok r ∧ Option.Rel related r (strip? orphans u) := by
  cases hinternal : u.isInternal with
  | false =>
    have hhere : editHere orphans (some u) none = some (.delete, u) := by
      rw [editHere, hinternal, if_neg Bool.false_ne_true]
    rw [h.eq_singleton_of_leaf (fun _ key => ⟨child?_of_not_isInternal hinternal key, rfl⟩) hhere,
      strip?_of_not_isInternal hinternal]
    exact ⟨none, rfl, .none⟩
  | true =>
    have hkeys : ∀ c ∈ edits, c.keys ≠ [] := fun c hc =>
      h.keys_ne_nil (by rw [editHere, if_pos hinternal]) hc
    have hheads : ∀ c ∈ edits, ∃ key d, c = Edit.below key d ∧
        ((u.child? key).isSome = true ∨ (u.emptyLike.child? key).isSome = true) := by
      intro c hc
      obtain ⟨key, d, rfl, hsome | hnone⟩ := h.exists_head hc (hkeys c hc)
      · exact ⟨key, d, rfl, .inl hsome⟩
      · cases hnone
    rw [strip?_of_isInternal hinternal]
    obtain ⟨w, hrun, hrelated⟩ := exists_runSlotEdits_of_child? hcongr orphans hu
      (hasNames_emptyLike u)
      (by cases u <;> rfl) (sharesContainer_emptyLike hinternal).2 hkeys hheads fun key => by
        rw [child?_emptyLike]
        exact hchild key
    exact ⟨some w, hrun, .some hrelated⟩

/-- Of a container that is emptied as a whole nothing is left, whether the empty one is written over
    it before the deletions, between them or after. -/
theorem runSlotEdits_of_emptied {u v : Value} (hu : u.everywhere Value.hasNames = true)
    (hshares : u.sharesContainer v = true) (hempty : v.isInternal = false)
    (h : EditsOf orphans (some u) (some v) edits)
    (hhere : editHere orphans (some u) (some v) = some (.add, v))
    (hchild : ∀ key, ∃ r, runSlotEdits (editsBelow key edits) (u.child? key) = .ok r) :
    runSlotEdits edits (some u) = .ok (some v) := by
  obtain ⟨before, after, rfl, hdeletions⟩ := h.exists_eq_append_of_add hhere hempty
  have hcontainers : u.isContainer = true ∧ v.isContainer = true := by
    cases u <;> cases v <;> simp only [Value.sharesContainer, Bool.false_eq_true] at hshares <;>
      exact ⟨rfl, rfl⟩
  -- The deletions in front are run on what the container holds.
  obtain ⟨w, hw⟩ : ∃ w, runEdits before u = .ok w := by
    refine exists_runEdits_of_runSlotEdits hu hcontainers.1 (fun c hc => ?_) fun key => ?_
    · obtain ⟨key, d, rfl, hsome | hnone⟩ := h.exists_head (List.mem_append_left _ hc)
        (hdeletions c (List.mem_append_left _ hc)).1
      · exact ⟨key, d, rfl, hsome⟩
      · rw [Option.bind_some, child?_of_not_isInternal hempty] at hnone
        cases hnone
    · obtain ⟨r, hr⟩ := hchild key
      rw [editsBelow, List.filterMap_append, runSlotEdits_append] at hr
      obtain ⟨s, hs, -⟩ := exists_of_bind_eq_ok hr
      exact ⟨s, hs⟩
  have hbefore : runSlotEdits before (some u) = .ok (some w) := by
    rw [runSlotEdits_some hcontainers.1 fun c hc =>
      (hdeletions c (List.mem_append_left _ hc)).1, hw]
    rfl
  rw [runSlotEdits_append, hbefore]
  exact runSlotEdits_of_not_isInternal hcontainers.2 hempty fun c hc =>
    hdeletions c (List.mem_append_right _ hc)

theorem exists_runSlotEdits_of_sharesContainer (hcongr : Value.IsCongruence related)
    {u v : Value} (hu : u.everywhere Value.hasNames = true) (hv : v.IsSelfRelated related)
    (hmemory : v.fitsMemory = true) (hshares : u.sharesContainer v = true)
    (h : EditsOf orphans (some u) (some v) edits)
    (hchild : ∀ key, ∃ r, runSlotEdits (editsBelow key edits) (u.child? key) = .ok r ∧
      Option.Rel related r (mergeBetween orphans (u.child? key) (v.child? key))) :
    ∃ r, runSlotEdits edits (some u) = .ok r ∧ Option.Rel related r (mergeAt orphans u v) := by
  have hhere : editHere orphans (some u) (some v) =
      if orphans && u.isInternal && !v.isInternal then some (.add, v) else none := by
    rw [editHere, deletes_of_sharesContainer hshares, swapsKind_of_sharesContainer hshares]
    cases hvi : v.isInternal <;> cases hui : u.isInternal <;> cases orphans <;>
      simp [differs_of_sharesContainer hshares, hvi, hui]
  rw [mergeAt_of_sharesContainer hshares]
  split at hhere
  · rename_i hemptied
    rw [if_pos hemptied]
    simp only [Bool.and_eq_true, Bool.not_eq_true'] at hemptied
    refine ⟨some v, runSlotEdits_of_emptied hu hshares hemptied.2 h hhere fun key => ?_,
      .some hv.self⟩
    obtain ⟨r, hr, -⟩ := hchild key
    exact ⟨r, hr⟩
  · rename_i hnot
    rw [if_neg hnot]
    have hkeys : ∀ c ∈ edits, c.keys ≠ [] := fun c hc => h.keys_ne_nil hhere hc
    obtain ⟨w, hrun, hrelated⟩ := exists_runSlotEdits_of_child? hcongr orphans hu hv.named hmemory
      hshares hkeys (fun c hc => h.exists_head hc (hkeys c hc)) hchild
    exact ⟨some w, hrun, .some hrelated⟩

theorem exists_runSlotEdits_of_not_sharesContainer {u v : Value} (hu : u.IsSelfRelated related)
    (hv : v.IsSelfRelated related) (hshares : u.sharesContainer v = false)
    (h : EditsOf orphans (some u) (some v) edits) :
    ∃ r, runSlotEdits edits (some u) = .ok r ∧ Option.Rel related r (mergeAt orphans u v) := by
  have hleaf : descends orphans (some u) (some v) = true → ∀ key,
      (some u).bind (·.child? key) = none ∧ (some v).bind (·.child? key) = none := by
    intro hdescends key
    rw [descends, swapsKind_of_not_sharesContainer hshares, Bool.not_eq_true',
      Bool.or_eq_false_iff] at hdescends
    exact ⟨child?_of_not_isInternal hdescends.1 key, child?_of_not_isInternal hdescends.2 key⟩
  have hhere : editHere orphans (some u) (some v) =
      if deletes u v then some (.delete, u)
      else if u.isInternal || v.isInternal || u.differs v then some (.set, v)
      else none := by
    rw [editHere, swapsKind_of_not_sharesContainer hshares]
    cases deletes u v <;> cases u.isInternal <;> cases v.isInternal <;>
      cases u.differs v <;> rfl
  have hkeep : (!u.isInternal && !v.isInternal && !u.differs v) =
      !(u.isInternal || v.isInternal || u.differs v) := by
    rw [Bool.not_or, Bool.not_or]
  rw [mergeAt_of_not_sharesContainer hshares, hkeep]
  cases hdeletes : deletes u v with
  | true =>
    rw [hdeletes, if_pos rfl] at hhere
    rw [h.eq_singleton_of_leaf hleaf hhere, if_pos rfl]
    exact ⟨none, rfl, .none⟩
  | false =>
    rw [hdeletes, if_neg Bool.false_ne_true] at hhere
    rw [if_neg Bool.false_ne_true]
    cases hset : u.isInternal || v.isInternal || u.differs v with
    | true =>
      rw [hset, if_pos rfl] at hhere
      rw [h.eq_singleton_of_leaf hleaf hhere, Bool.not_true, if_neg Bool.false_ne_true]
      exact ⟨some v, rfl, .some hv.self⟩
    | false =>
      rw [hset, if_neg Bool.false_ne_true] at hhere
      have hnone : ∀ d, ¬IsEdit orphans (some u) (some v) d := by
        intro d hd
        rw [isEdit_iff_of_leaf hleaf, hhere] at hd
        cases hd.2
      rw [h.eq_nil hnone, Bool.not_false, if_pos rfl]
      exact ⟨some u, rfl, .some hu.self⟩

/-- All edits between two values, in any order, give the merge of the values. -/
theorem exists_runSlotEdits (hcongr : Value.IsCongruence related) {u : Value} {v : Option Value}
    (hu : u.IsSelfRelated related)
    (hv : ∀ y, v = some y → y.IsSelfRelated related ∧ y.everywhere Value.fitsMemory = true)
    (h : EditsOf orphans (some u) v edits) :
    ∃ r, runSlotEdits edits (some u) = .ok r ∧
      Option.Rel related r (mergeBetween orphans (some u) v) := by
  induction u using Value.childInduction generalizing v edits with
  | step u ih =>
    have hchild : descends orphans (some u) v = true → ∀ key, ∃ r,
        runSlotEdits (editsBelow key edits) (u.child? key) = .ok r ∧
        Option.Rel related r (mergeBetween orphans (u.child? key) (v.bind (·.child? key))) := by
      intro hdescends key
      have hbelow := h.below hdescends key
      rw [Option.bind_some] at hbelow
      have hvchild : ∀ y, v.bind (·.child? key) = some y →
          y.IsSelfRelated related ∧ y.everywhere Value.fitsMemory = true := by
        intro y hy
        obtain ⟨w, hw, hy⟩ := Option.bind_eq_some_iff.mp hy
        exact ⟨(hv w hw).1.child hy, Value.everywhere_of_child? (hv w hw).2 hy⟩
      refine exists_runSlotEdits_of_some hcongr hvchild hbelow fun x hx => ?_
      rw [hx] at hbelow ⊢
      exact ih key x hx (hu.child hx) hvchild hbelow
    cases v with
    | none => exact exists_runSlotEdits_some_none hcongr hu.named h (hchild rfl)
    | some v =>
      cases hshares : u.sharesContainer v with
      | true =>
        have hdescends : descends orphans (some u) (some v) = true := by
          rw [descends, swapsKind_of_sharesContainer hshares, Bool.not_false]
        exact exists_runSlotEdits_of_sharesContainer hcongr hu.named (hv v rfl).1
          (Value.test_of_everywhere (hv v rfl).2) hshares h (hchild hdescends)
      | false => exact exists_runSlotEdits_of_not_sharesContainer hu (hv v rfl).1 hshares h

end Values

/-! ### Documents -/

/-- The edits of one bucket, sorted by the text of their paths. -/
def sortedEdits (bucket : Bucket) (edits : List Edit) : List Edit :=
  (edits.filter fun c => c.bucket = bucket).mergeSort fun c d =>
    decide (c.node.path ≤ d.node.path)

/-- The edits in the order in which a diff is applied. -/
def editsInOrder (edits : List Edit) : List Edit :=
  sortedEdits .delete edits ++ (sortedEdits .add edits ++ sortedEdits .set edits)

section Documents

variable {orphans : Bool} {a b : Value} {edits : List Edit} {c : Edit} {v : Value}

theorem mem_sortedEdits {bucket : Bucket} :
    c ∈ sortedEdits bucket edits ↔ c ∈ edits ∧ c.bucket = bucket := by
  rw [sortedEdits, List.mem_mergeSort, List.mem_filter, decide_eq_true_eq]

/-- The order in which a diff is applied leaves no edit out. -/
theorem editsInOrder_perm (edits : List Edit) : (editsInOrder edits).Perm edits := by
  have hsorted : ∀ bucket, (sortedEdits bucket edits).Perm
      (edits.filter fun c => c.bucket = bucket) := fun _ => List.mergeSort_perm _ _
  refine List.Perm.trans ?_ (perm_filter_bucket edits)
  exact List.perm_append_comm.trans
    (((hsorted .add).append (hsorted .set)).append (hsorted .delete))

theorem map_node_sortedEdits (bucket : Bucket) (edits : List Edit) :
    (sortedEdits bucket edits).map Edit.node = bucketNodes bucket edits :=
  List.map_mergeSort fun _ _ _ _ => rfl

theorem editsOf_editsBelow (orphans : Bool) (ha : a.everywhere Value.hasNames = true)
    (hb : b.everywhere Value.hasNames = true) (hshares : a.sharesContainer b = true)
    (hperm : edits.Perm (structuralEdits orphans a b)) (key : Key) :
    EditsOf orphans (a.child? key) (b.child? key) (editsBelow key edits) where
  nodup := by
    refine (hperm.nodup_iff.mpr (nodup_structuralEdits ha hb)).filterMap fun c d e hc hd => ?_
    rw [below?_eq_some_iff.mp hc, below?_eq_some_iff.mp hd]
  mem_iff c := by
    rw [mem_editsBelow, hperm.mem_iff, mem_structuralEdits_iff ha hb hshares, isEdit_below_iff,
      descends, swapsKind_of_sharesContainer hshares]
    simp [Edit.below]

/-- Applied to the base document in any order, all edits give the merge of both documents. -/
theorem exists_runEdits_of_perm {related : Value → Value → Prop}
    (hcongr : Value.IsCongruence related) (orphans : Bool) (ha : a.IsSelfRelated related)
    (hb : b.IsSelfRelated related) (hmemory : b.everywhere Value.fitsMemory = true)
    (hshares : a.sharesContainer b = true) (hperm : edits.Perm (structuralEdits orphans a b)) :
    ∃ v, runEdits edits a = .ok v ∧ related v (mergeRoots orphans a b) := by
  refine exists_runEdits_of_child? hcongr orphans ha.named hb.named
    (Value.test_of_everywhere hmemory) hshares (fun c hc => ?_) fun key => ?_
  · rw [hperm.mem_iff, mem_structuralEdits ha.named hb.named hshares] at hc
    obtain ⟨key, d, hd, rfl⟩ := hc
    refine ⟨key, d, rfl, ?_⟩
    cases hx : a.child? key with
    | some x => exact .inl rfl
    | none =>
      cases hy : b.child? key with
      | some y => exact .inr rfl
      | none =>
        rw [hx, hy, editsBetween] at hd
        exact absurd hd List.not_mem_nil
  · have hedits := editsOf_editsBelow orphans ha.named hb.named hshares hperm key
    have hbchild : ∀ y, b.child? key = some y →
        y.IsSelfRelated related ∧ y.everywhere Value.fitsMemory = true :=
      fun y hy => ⟨hb.child hy, Value.everywhere_of_child? hmemory hy⟩
    refine exists_runSlotEdits_of_some hcongr hbchild hedits fun x hx => ?_
    rw [hx] at hedits ⊢
    exact exists_runSlotEdits hcongr (ha.child hx) hbchild hedits

/-- A value with names as keys and without NaN. -/
structure Value.IsComparable (v : Value) : Prop where
  named : v.everywhere hasNames = true
  nonNan : v.everywhere isNonNan = true

/-- Applied to the base document, all edits give the merge of both documents. -/
theorem exists_runEdits_structuralEdits (orphans : Bool) (ha : a.IsComparable)
    (hb : b.IsComparable) (hmemory : b.everywhere Value.fitsMemory = true)
    (hshares : a.sharesContainer b = true) :
    ∃ v, runEdits (editsInOrder (structuralEdits orphans a b)) a = .ok v ∧
      v.agrees (mergeRoots orphans a b) = true :=
  exists_runEdits_of_perm Value.isCongruence_agrees orphans
    (Value.isSelfRelated_agrees ha.named ha.nonNan) (Value.isSelfRelated_agrees hb.named hb.nonNan)
    hmemory hshares (editsInOrder_perm _)

theorem removePath_node (hdelete : c.bucket = .delete)
    (hkeys : ∀ key ∈ c.keys, key.isLegible = true) : removePath v c.node.path = c.run v := by
  have hparents : ∀ key ∈ c.keys.dropLast, key.isLegible = true := fun key hkey =>
    hkeys key (List.dropLast_subset _ hkey)
  rw [Edit.run, if_pos hdelete, removePath, Value.remove, Edit.node, Node.along_path,
    pathKeys_pathText hkeys]
  cases hlast : c.keys.getLast? with
  | none => simp [hlast, bind, Except.bind]
  | some key => simp [hlast, bind, Except.bind, pathKeys_pathText hparents]

theorem setPath_node (hwrite : c.bucket ≠ .delete)
    (hkeys : ∀ key ∈ c.keys, key.isLegible = true) :
    (setPath v c.node.path c.node.value).toExcept = c.run v := by
  rw [Edit.run, if_neg hwrite, setPath, Edit.node, Node.along_path, pathKeys_pathText hkeys]
  rfl

theorem removeNodes_map_node (hdelete : ∀ c ∈ edits, c.bucket = .delete)
    (hkeys : ∀ c ∈ edits, ∀ key ∈ c.keys, key.isLegible = true) :
    removeNodes v (edits.map Edit.node) = runEdits edits v := by
  induction edits generalizing v with
  | nil => rfl
  | cons c edits ih =>
    have hstep : removeNodes v ((c :: edits).map Edit.node) =
        (removePath v c.node.path).bind fun w => removeNodes w (edits.map Edit.node) := rfl
    rw [hstep, runEdits_cons, removePath_node (hdelete c List.mem_cons_self)
      (hkeys c List.mem_cons_self)]
    cases c.run v with
    | error error => rfl
    | ok w =>
      exact ih (fun d hd => hdelete d (List.mem_cons_of_mem _ hd)) fun d hd =>
        hkeys d (List.mem_cons_of_mem _ hd)

theorem writeNodes_map_node (hwrite : ∀ c ∈ edits, c.bucket ≠ .delete)
    (hkeys : ∀ c ∈ edits, ∀ key ∈ c.keys, key.isLegible = true) :
    writeNodes v (edits.map Edit.node) = runEdits edits v := by
  induction edits generalizing v with
  | nil => rfl
  | cons c edits ih =>
    have hstep : writeNodes v ((c :: edits).map Edit.node) =
        (setPath v c.node.path c.node.value).toExcept.bind fun w =>
          writeNodes w (edits.map Edit.node) := rfl
    rw [hstep, runEdits_cons, setPath_node (hwrite c List.mem_cons_self)
      (hkeys c List.mem_cons_self)]
    cases c.run v with
    | error error => rfl
    | ok w =>
      exact ih (fun d hd => hwrite d (List.mem_cons_of_mem _ hd)) fun d hd =>
        hkeys d (List.mem_cons_of_mem _ hd)

theorem runEdits_append (edits others : List Edit) (v : Value) :
    runEdits (edits ++ others) v = (runEdits edits v).bind (runEdits others) := by
  induction edits generalizing v with
  | nil => rfl
  | cons c edits ih =>
    rw [List.cons_append, runEdits_cons, runEdits_cons]
    cases c.run v with
    | error error => rfl
    | ok w => exact ih w

/-- Applying the structural diff is running its edits in order. -/
theorem apply_structuralDiff (hlegible : ∀ c ∈ structuralEdits orphans a b,
    ∀ key ∈ c.keys, key.isLegible = true) :
    (structuralDiff orphans a b).apply v =
      runEdits (editsInOrder (structuralEdits orphans a b)) v := by
  have hkeys : ∀ bucket, ∀ c ∈ sortedEdits bucket (structuralEdits orphans a b),
      ∀ key ∈ c.keys, key.isLegible = true := fun bucket c hc =>
    hlegible c (mem_sortedEdits.mp hc).1
  have hbucket : ∀ bucket, ∀ c ∈ sortedEdits bucket (structuralEdits orphans a b),
      c.bucket = bucket := fun bucket c hc => (mem_sortedEdits.mp hc).2
  have hdelete : ∀ v, removeNodes v (bucketNodes .delete (structuralEdits orphans a b)) =
      runEdits (sortedEdits .delete (structuralEdits orphans a b)) v := by
    intro v
    rw [← map_node_sortedEdits]
    exact removeNodes_map_node (hbucket .delete) (hkeys .delete)
  have hwrite : ∀ bucket, bucket ≠ .delete → ∀ v,
      writeNodes v (bucketNodes bucket (structuralEdits orphans a b)) =
        runEdits (sortedEdits bucket (structuralEdits orphans a b)) v := by
    intro bucket hne v
    rw [← map_node_sortedEdits]
    exact writeNodes_map_node (fun c hc heq => hne ((hbucket bucket c hc).symm.trans heq))
      (hkeys bucket)
  rw [editsInOrder, runEdits_append, ← hdelete]
  show (removeNodes v (bucketNodes .delete _)).bind (fun w =>
    (writeNodes w (bucketNodes .add _)).bind fun x => writeNodes x (bucketNodes .set _)) = _
  congr 1
  funext w
  rw [runEdits_append, hwrite .add (by decide)]
  congr 1
  funext x
  exact hwrite .set (by decide) x

end Documents

/-- A document patched with the diff to another document is the structural merge of both. The
    lists of the other document are in memory, so there is room to build them up again. -/
theorem exists_patchWith_diff (orphans : Bool) {a b : Value} (ha : a.IsDocument)
    (hb : b.IsDocument) (hna : a.everywhere Value.isNonNan = true)
    (hnb : b.everywhere Value.isNonNan = true) (hmemory : b.everywhere Value.fitsMemory = true)
    {d : Diff} (h : diff a b orphans = .ok d) :
    ∃ v, patchWith a d = .ok v ∧ v.agrees (mergeRoots orphans a b) = true := by
  have hshares := sharesContainer_of_isDocument ha hb
  obtain ⟨hra, hrb, rfl⟩ := eq_structuralDiff_of_diff ha.named hb.named hshares h
  obtain ⟨v, hrun, hagrees⟩ := exists_runEdits_structuralEdits orphans ⟨ha.named, hna⟩
    ⟨hb.named, hnb⟩ hmemory hshares
  refine ⟨v, ?_, hagrees⟩
  have hcontainer : a.isContainer = true := by
    obtain ⟨members, rfl⟩ := ha.exists_eq_map
    rfl
  have hlegible : ∀ c ∈ structuralEdits orphans a b, ∀ key ∈ c.keys, key.isLegible = true := by
    intro c hc
    rw [mem_structuralEdits_iff ha.named hb.named hshares] at hc
    exact isLegible_of_isEdit hra hrb hc.2
  rw [patchWith, structuralDiff_check orphans hra hrb hshares, hcontainer]
  exact (apply_structuralDiff hlegible).trans hrun

/-- An element that is gone leaves null, a map whose members are gone stays empty. -/
theorem patchWith_diff_of_emptied_list :
    ∃ v, patchWith (.ofNamed [("a", .list [.int 1]), ("b", .ofNamed [("c", .int 1)])])
        ⟨[⟨"$.d", .int 3⟩], [], [⟨"$.a[0]", .int 1⟩, ⟨"$.b.c", .int 1⟩]⟩ = .ok v ∧
      v.agrees (.ofNamed [("a", .list [.null]), ("b", .emptyMap), ("d", .int 3)]) := by
  have hbase : (Value.ofNamed [("a", .list [.int 1]),
      ("b", .ofNamed [("c", .int 1)])]).IsDocument := ⟨rfl, by decide, by decide⟩
  have hmodified : (Value.ofNamed [("a", .emptyList), ("d", .int 3)]).IsDocument :=
    ⟨rfl, by decide, by decide⟩
  have hedits : structuralEdits false
      (.ofNamed [("a", .list [.int 1]), ("b", .ofNamed [("c", .int 1)])])
      (.ofNamed [("a", .emptyList), ("d", .int 3)]) =
      [⟨.delete, [.name "a", .index 0], .int 1⟩, ⟨.delete, [.name "b", .name "c"], .int 1⟩,
        ⟨.add, [.name "d"], .int 3⟩] := by decide
  have hdeletions : sortByPath [⟨"$.a[0]", .int 1⟩, ⟨"$.b.c", .int 1⟩] =
      [⟨"$.a[0]", .int 1⟩, ⟨"$.b.c", .int 1⟩] := by
    refine List.mergeSort_of_pairwise ?_
    decide
  have hdiff : diff (.ofNamed [("a", .list [.int 1]), ("b", .ofNamed [("c", .int 1)])])
      (.ofNamed [("a", .emptyList), ("d", .int 3)]) false =
      .ok ⟨[⟨"$.d", .int 3⟩], [], [⟨"$.a[0]", .int 1⟩, ⟨"$.b.c", .int 1⟩]⟩ := by
    rw [diff_eq_ok false hbase hmodified (by decide) (by decide) (by decide) (by decide),
      structuralDiff, hedits]
    show Except.ok (⟨sortByPath [⟨"$.d", .int 3⟩], sortByPath [],
      sortByPath [⟨"$.a[0]", .int 1⟩, ⟨"$.b.c", .int 1⟩]⟩ : Diff) = _
    rw [hdeletions, sortByPath, sortByPath, List.mergeSort_singleton, List.mergeSort_nil]
  have hmerged : mergeRoots false
      (.ofNamed [("a", .list [.int 1]), ("b", .ofNamed [("c", .int 1)])])
      (.ofNamed [("a", .emptyList), ("d", .int 3)]) =
      .ofNamed [("a", .list [.null]), ("b", .emptyMap), ("d", .int 3)] := by decide
  obtain ⟨v, hpatch, hagrees⟩ := exists_patchWith_diff false hbase hmodified (by decide) (by decide)
    (by decide) hdiff
  exact ⟨v, hpatch, hmerged ▸ hagrees⟩

end ItemDelta
