import ItemDelta.Proofs.Diff.Overlap

/-!
# Diffs that can be applied

Besides paths that overlap, the store refuses an update that puts a value below what is no
container, or no container of the right kind. Without `orphans` a diff keeps clear of both, and its
buckets tell what is there already from what is new.

## Main definitions

* `Diff.IsApplicable` — what the store asks of a diff.

## Main results

* `IsEdit.exists_parent` — what is added or set has a parent of the right kind.
* `isApplicable_of_diff` — the store can apply a diff without orphans.
-/

namespace ItemDelta

/-- The kind of container that a key leads down from. -/
def Key.containerKind : Key → Value.Kind
  | .name _ => .map
  | .index _ => .list

/-- What the store asks of a diff: its paths are apart, what is put somewhere goes into a container
    of the kind that its last key asks for, and what is there already is told from what is new. -/
structure Diff.IsApplicable (d : Diff) (base : Value) : Prop where
  apart : (d.add ++ d.set ++ d.delete).Pairwise Node.Apart
  parent : ∀ n ∈ d.add ++ d.set, ∃ parents key container,
    pathKeys n.path = .ok (parents ++ [key]) ∧
      getPath base (pathText parents) = .ok (some container) ∧ container.kind = key.containerKind
  absent : ∀ n ∈ d.add, getPath base n.path = .ok none
  present : ∀ n ∈ d.set, ∃ v, getPath base n.path = .ok (some v)
  deleted : ∀ n ∈ d.delete, getPath base n.path = .ok (some n.value)

section Applicable

variable {a b v w : Value} {key : Key} {keys parents : List Key}

theorem getPath_pathText (h : ∀ key ∈ keys, key.isLegible = true) (a : Value) :
    getPath a (pathText keys) = .ok (a.get? keys) :=
  getPath_eq_ok (pathKeys_pathText h) a

theorem kind_of_child? (h : v.child? key = some w) : v.kind = key.containerKind := by
  cases v <;> cases key <;> first | rfl | cases h

theorem kind_of_sharesContainer (h : v.sharesContainer w = true) : v.kind = w.kind := by
  cases v <;> cases w <;> first | rfl | cases h

/-- Without orphans, what is added or set has a parent of the right kind in the base document. -/
theorem IsEdit.exists_parent {bucket : Bucket}
    (h : IsEdit false (some a) (some b) ⟨bucket, parents ++ [key], w⟩)
    (hbucket : bucket ≠ .delete) :
    ∃ container, a.get? parents = some container ∧ container.kind = key.containerKind := by
  have hstrict : parents <+: parents ++ [key] := List.prefix_append _ _
  have hne : parents ≠ parents ++ [key] := by simp
  cases bucket with
  | delete => exact absurd rfl hbucket
  | set =>
    obtain ⟨x, hx, -⟩ := isEdit_set_iff.mp h
    rw [Value.get?_append, Option.bind_eq_some_iff] at hx
    obtain ⟨u, hu, hx⟩ := hx
    rw [Value.get?_cons, Option.bind_eq_some_iff] at hx
    obtain ⟨child, hchild, -⟩ := hx
    exact ⟨u, hu, kind_of_child? hchild⟩
  | add =>
    obtain ⟨hw, -, -, hunswapped, habove⟩ := isEdit_add_iff.mp h
    obtain ⟨u, hu⟩ := Option.isSome_iff_exists.mp (habove rfl parents hstrict hne)
    rw [Value.get?_append, Option.bind_eq_some_iff] at hw
    obtain ⟨v, hv, hw⟩ := hw
    rw [Value.get?_cons, Option.bind_eq_some_iff] at hw
    obtain ⟨child, hchild, -⟩ := hw
    -- The parent in the modified document holds something, so it has not changed its kind.
    have hfilled : v.isInternal = true := by
      by_contra hleaf
      rw [child?_of_not_isInternal ((Bool.not_eq_true _).mp hleaf)] at hchild
      cases hchild
    have hshares := sharesContainer_of_isInternal
      (hunswapped parents hstrict hne u v hu hv) (.inr hfilled)
    exact ⟨u, hu, (kind_of_sharesContainer hshares).trans (kind_of_child? hchild)⟩

/-- The store can apply a diff without orphans. -/
theorem isApplicable_of_diff {d : Diff} (ha : a.IsDocument) (hb : b.IsDocument)
    (h : diff a b false = .ok d) : d.IsApplicable a := by
  have hshares := sharesContainer_of_isDocument ha hb
  obtain ⟨ha, hb, rfl⟩ := eq_structuralDiff_of_diff ha.named hb.named hshares h
  have hedit : ∀ {bucket keys w}, ⟨bucket, keys, w⟩ ∈ structuralEdits false a b →
      keys ≠ [] ∧ IsEdit false (some a) (some b) ⟨bucket, keys, w⟩ ∧
        ∀ key ∈ keys, key.isLegible = true := by
    intro bucket keys w hmem
    obtain ⟨hne, hedit⟩ := (mem_structuralEdits_iff ha.named hb.named hshares).mp hmem
    exact ⟨hne, hedit, isLegible_of_isEdit ha hb hedit⟩
  have hparent : ∀ bucket, bucket ≠ .delete →
      ∀ n ∈ bucketNodes bucket (structuralEdits false a b), ∃ parents key container,
        pathKeys n.path = .ok (parents ++ [key]) ∧
          getPath a (pathText parents) = .ok (some container) ∧
          container.kind = key.containerKind := by
    intro bucket hbucket n hn
    obtain ⟨keys, w, hmem, rfl⟩ := mem_bucketNodes.mp hn
    obtain ⟨hne, hc, hlegible⟩ := hedit hmem
    obtain ⟨parents, key, rfl⟩ := List.eq_nil_or_concat' keys |>.resolve_left hne
    obtain ⟨container, hcontainer, hkind⟩ := hc.exists_parent hbucket
    refine ⟨parents, key, container, pathKeys_pathText hlegible, ?_, hkind⟩
    rw [getPath_pathText fun k hk => hlegible k (List.mem_append_left _ hk), hcontainer]
  constructor
  case apart =>
    refine (pairwise_apart_structuralDiff_iff ha hb hshares).mpr fun c hc d hd hprefix => ?_
    obtain ⟨bucket, keys, v⟩ := c
    obtain ⟨other, others, w⟩ := d
    obtain heq | ⟨horphans, -⟩ := (hedit hc).2.1.eq_or_emptied (hedit hd).2.1 hprefix
    · exact heq
    · cases horphans
  case parent =>
    intro n hn
    rcases List.mem_append.mp hn with hn | hn
    · exact hparent .add (by decide) n hn
    · exact hparent .set (by decide) n hn
  case absent =>
    intro n hn
    obtain ⟨keys, w, hmem, rfl⟩ := mem_bucketNodes.mp hn
    obtain ⟨-, hc, hlegible⟩ := hedit hmem
    obtain ⟨-, -, hnone, -⟩ := isEdit_add_iff.mp hc
    rw [Node.along_path, getPath_pathText hlegible]
    cases hx : a.get? keys with
    | none => rfl
    | some x => cases (hnone x hx).1
  case present =>
    intro n hn
    obtain ⟨keys, w, hmem, rfl⟩ := mem_bucketNodes.mp hn
    obtain ⟨-, hc, hlegible⟩ := hedit hmem
    obtain ⟨x, hx, -⟩ := isEdit_set_iff.mp hc
    exact ⟨x, by rw [Node.along_path, getPath_pathText hlegible, hx]⟩
  case deleted =>
    intro n hn
    obtain ⟨keys, w, hmem, rfl⟩ := mem_bucketNodes.mp hn
    obtain ⟨-, hc, hlegible⟩ := hedit hmem
    obtain ⟨hw, -⟩ := isEdit_delete_iff.mp hc
    rw [Node.along_path, getPath_pathText hlegible, hw, Node.along_value]

end Applicable

/-- A map that is swapped for a text, a map that is filled and a list that loses an element. -/
theorem isApplicable_of_swapped_member :
    let base : Value := .ofNamed [("p", .ofNamed [("x", .int 1)]), ("q", .emptyMap),
      ("r", .list [.int 1, .int 2])]
    let modified : Value := .ofNamed [("p", .text "none"),
      ("q", .ofNamed [("y", .ofNamed [("z", .int 2)])]), ("r", .list [.int 1])]
    structuralEdits false base modified =
      [⟨.set, [.name "p"], .text "none"⟩,
        ⟨.add, [.name "q", .name "y"], .ofNamed [("z", .int 2)]⟩,
        ⟨.delete, [.name "r", .index 1], .int 2⟩] ∧
      diff base modified false = .ok (structuralDiff false base modified) ∧
      (structuralDiff false base modified).IsApplicable base := by
  intro base modified
  have hbase : base.IsDocument := ⟨rfl, by decide, by decide⟩
  have hmodified : modified.IsDocument := ⟨rfl, by decide, by decide⟩
  have hdiff : diff base modified false = .ok (structuralDiff false base modified) :=
    diff_eq_ok false hbase hmodified (by decide) (by decide) (by decide) (by decide)
  exact ⟨by decide +kernel, hdiff, isApplicable_of_diff hbase hmodified hdiff⟩

end ItemDelta
