import ItemDelta.Proofs.Diff.Buckets
import ItemDelta.Diff.Partition
import Mathlib.Data.List.Pairwise

/-!
# Paths that overlap

The store refuses an update if one of its paths lies at or below another. Two edits of a diff can
overlap in one way only: with `orphans`, a filled container that has become an empty one of the
same kind is added as a whole, while the leaves below it are deleted one by one.

## Main definitions

* `Node.Apart` — neither of two nodes lies at or below the other.
* `Emptied` — a filled container has become an empty one of the same kind.

## Main results

* `IsEdit.eq_or_emptied` — an edit that lies above another one adds an emptied container.
* `pairwise_apart_structuralDiff_iff` — paths are apart if no edit lies above another one.
* `pairwise_apart_partition_iff` — with orphans, paths overlap exactly where containers are emptied.
-/

namespace ItemDelta

/-- Neither of two nodes lies at or below the other. -/
def Node.Apart (m n : Node) : Prop :=
  ∃ keys others, pathKeys m.path = .ok keys ∧ pathKeys n.path = .ok others ∧
    ItemDelta.Apart keys others

theorem Node.Apart.symm {m n : Node} (h : m.Apart n) : n.Apart m := by
  obtain ⟨keys, others, hm, hn, hapart⟩ := h
  exact ⟨others, keys, hn, hm, hapart.symm⟩

theorem Node.apart_along_iff {keys others : List Key} {v w : Value}
    (hkeys : ∀ key ∈ keys, key.isLegible = true) (hothers : ∀ key ∈ others, key.isLegible = true) :
    (Node.along keys v).Apart (Node.along others w) ↔ ItemDelta.Apart keys others := by
  simp only [Node.Apart, Node.along_path, pathKeys_pathText hkeys, pathKeys_pathText hothers,
    Except.ok.injEq]
  constructor
  · rintro ⟨_, _, rfl, rfl, h⟩
    exact h
  · exact fun h => ⟨keys, others, rfl, rfl, h⟩

/-- A filled container at a place has become an empty one of the same kind. -/
def Emptied (a b : Value) (keys : List Key) : Prop :=
  ∃ u v, a.get? keys = some u ∧ b.get? keys = some v ∧ u.sharesContainer v = true ∧
    u.isInternal = true ∧ v.isInternal = false

/-! ### The edits above an edit -/

section Above

variable {orphans : Bool} {a b u v : Value} {keys : List Key} {c d : Edit}

theorem sharesContainer_of_isInternal (hswaps : swapsKind u v = false)
    (h : u.isInternal = true ∨ v.isInternal = true) : u.sharesContainer v = true := by
  by_contra hshares
  rw [swapsKind_of_not_sharesContainer ((Bool.not_eq_true _).mp hshares)] at hswaps
  simp only [Bool.or_eq_false_iff] at hswaps
  rcases h with h | h
  · rw [hswaps.1] at h
    cases h
  · rw [hswaps.2] at h
    cases h

/-- If the comparison goes on below two values that are an edit themselves, and one of them holds
    something, then the first is a filled container and the second an empty one of its kind. -/
theorem emptied_of_editHere {x y : Option Value} {edit : Bucket × Value}
    (hhere : editHere orphans x y = some edit) (hdescends : descends orphans x y = true)
    (hinternal : x.any Value.isInternal = true ∨ y.any Value.isInternal = true) :
    orphans = true ∧ ∃ u v, x = some u ∧ y = some v ∧ u.sharesContainer v = true ∧
      u.isInternal = true ∧ v.isInternal = false := by
  cases x with
  | none =>
    cases y with
    | none => cases hhere
    | some v => simp_all [editHere, descends]
  | some u =>
    cases y with
    | none => simp_all [editHere]
    | some v =>
      have hswaps : swapsKind u v = false := by simpa [descends] using hdescends
      have hshares := sharesContainer_of_isInternal hswaps (by simpa using hinternal)
      rw [editHere, deletes_of_sharesContainer hshares, hswaps] at hhere
      cases hv : v.isInternal with
      | true => simp [hv] at hhere
      | false =>
        have hu : u.isInternal = true := by simpa [hv] using hinternal
        refine ⟨?_, u, v, rfl, rfl, hshares, hu, hv⟩
        cases orphans with
        | true => rfl
        | false => simp [hu, hv] at hhere

theorem any_isInternal_of_get?_append {key : Key} {rest : List Key} {w : Value}
    (hw : a.get? (keys ++ key :: rest) = some w) : (a.get? keys).any Value.isInternal = true := by
  obtain ⟨u, hu⟩ := exists_get?_of_prefix hw (List.prefix_append keys _)
  rw [hu, Option.any_some]
  by_contra hleaf
  rw [Value.get?_append, hu, Option.bind_some, Value.get?_cons,
    child?_of_not_isInternal ((Bool.not_eq_true _).mp hleaf)] at hw
  cases hw

/-- At one place there is one edit. -/
theorem IsEdit.eq_of_keys {x y : Option Value} (hc : IsEdit orphans x y c)
    (hd : IsEdit orphans x y d) (h : c.keys = d.keys) : c = d := by
  obtain ⟨bucket, keys, w⟩ := c
  obtain ⟨other, others, x⟩ := d
  obtain rfl : keys = others := h
  have heq := hc.here.symm.trans hd.here
  simp only [Option.some.injEq, Prod.mk.injEq] at heq
  rw [heq.1, heq.2]

/-- An edit that lies at or above another one is that edit, or adds an emptied container. -/
theorem IsEdit.eq_or_emptied (hc : IsEdit orphans (some a) (some b) c)
    (hd : IsEdit orphans (some a) (some b) d) (h : c.keys <+: d.keys) :
    c = d ∨ orphans = true ∧ Emptied a b c.keys := by
  obtain ⟨bucket, keys, w⟩ := c
  obtain ⟨other, others, x⟩ := d
  obtain ⟨rest, rfl⟩ := h
  cases rest with
  | nil => exact .inl (hc.eq_of_keys hd (List.append_nil keys).symm)
  | cons key rest =>
    have hdescends := hd.above keys (List.prefix_append _ _) (by simp)
    refine .inr (emptied_of_editHere hc.here hdescends ?_)
    -- There is an edit further down, so one of the two values holds something.
    cases hu : a.get? (keys ++ key :: rest) with
    | some u => exact .inl (any_isInternal_of_get?_append hu)
    | none =>
      cases hv : b.get? (keys ++ key :: rest) with
      | some v => exact .inr (any_isInternal_of_get?_append hv)
      | none =>
        have hhere := hd.here
        simp only [readAt_some, hu, hv, editHere, reduceCtorEq] at hhere

end Above

/-! ### Nodes apart -/

section Buckets

variable {orphans : Bool} {a b : Value}

theorem structuralDiff_perm (orphans : Bool) (a b : Value) :
    ((structuralDiff orphans a b).add ++ (structuralDiff orphans a b).set ++
      (structuralDiff orphans a b).delete).Perm ((structuralEdits orphans a b).map Edit.node) := by
  have hbucket : ∀ bucket, (bucketNodes bucket (structuralEdits orphans a b)).Perm
      (((structuralEdits orphans a b).filter fun c => c.bucket = bucket).map Edit.node) :=
    fun _ => sortByPath_perm _
  refine (((hbucket .add).append (hbucket .set)).append (hbucket .delete)).trans ?_
  rw [← List.map_append, ← List.map_append]
  exact (perm_filter_bucket _).map Edit.node

/-- The nodes of a diff are apart if no edit lies at or above another one. -/
theorem pairwise_apart_structuralDiff_iff (ha : a.IsReadable) (hb : b.IsReadable)
    (hshares : a.sharesContainer b = true) :
    ((structuralDiff orphans a b).add ++ (structuralDiff orphans a b).set ++
        (structuralDiff orphans a b).delete).Pairwise Node.Apart ↔
      ∀ c ∈ structuralEdits orphans a b, ∀ d ∈ structuralEdits orphans a b,
        c.keys <+: d.keys → c = d := by
  have hlegible : ∀ c ∈ structuralEdits orphans a b, ∀ key ∈ c.keys, key.isLegible = true := by
    intro c hc
    obtain ⟨bucket, keys, w⟩ := c
    exact isLegible_of_isEdit ha hb ((mem_structuralEdits_iff ha.named hb.named hshares).mp hc).2
  have hapart : ∀ {c d}, c ∈ structuralEdits orphans a b → d ∈ structuralEdits orphans a b →
      (c.node.Apart d.node ↔ Apart c.keys d.keys) := fun hc hd =>
    Node.apart_along_iff (hlegible _ hc) (hlegible _ hd)
  have hnodup : (structuralEdits orphans a b).Nodup := nodup_structuralEdits ha.named hb.named
  rw [(structuralDiff_perm orphans a b).pairwise_iff Node.Apart.symm, List.pairwise_map]
  constructor
  · intro h c hc d hd hprefix
    by_contra hne
    have : Std.Symm fun c d : Edit => c.node.Apart d.node := ⟨fun _ _ => Node.Apart.symm⟩
    exact ((hapart hc hd).mp (h.forall hc hd hne)).1 hprefix
  · intro h
    refine hnodup.pairwise_of_forall_ne fun c hc d hd hne => (hapart hc hd).mpr ⟨?_, ?_⟩
    · exact fun hprefix => hne (h c hc d hd hprefix)
    · exact fun hprefix => hne (h d hd c hc hprefix).symm

end Buckets

/-! ### Emptied containers -/

section Emptied

variable {supportSets : Bool} {a b v : Value} {keys : List Key}

/-- Below a filled container there is a leaf. -/
theorem exists_leaf_of_isInternal (h : v.everywhere Value.hasNames = true)
    (hv : v.isInternal = true) :
    ∃ key rest w, v.get? (key :: rest) = some w ∧ w.isInternal = false := by
  induction v using Value.childInduction with
  | step v ih =>
    obtain ⟨key, child, hchild⟩ := (isInternal_iff h).mp hv
    cases hleaf : child.isInternal with
    | false => exact ⟨key, [], child, by rw [Value.get?_cons, hchild]; rfl, hleaf⟩
    | true =>
      obtain ⟨next, rest, w, hw, hleaf⟩ :=
        ih key child hchild (Value.everywhere_of_child? h hchild) hleaf
      exact ⟨key, next :: rest, w, by rw [Value.get?_cons, hchild]; exact hw, hleaf⟩

/-- What is emptied is added as a whole with orphans. -/
theorem Emptied.exists_isEdit_add (h : Emptied a b keys) :
    ∃ w, IsEdit true (some a) (some b) ⟨.add, keys, w⟩ := by
  obtain ⟨u, v, hu, hv, hshares, hfilled, hempty⟩ := h
  refine ⟨v, isEdit_add_iff.mpr ⟨hv, fun _ => hempty, fun x hx => ?_,
    unswappedAbove_of_get? hu hv, nofun⟩⟩
  rw [hu, Option.some.injEq] at hx
  exact ⟨rfl, hx ▸ hfilled, hx ▸ swapsKind_of_sharesContainer hshares⟩

/-- A leaf below what is emptied is deleted. -/
theorem Emptied.exists_isEdit_delete (h : Emptied a b keys)
    (ha : a.everywhere Value.hasNames = true) :
    ∃ key rest w, IsEdit true (some a) (some b) ⟨.delete, keys ++ key :: rest, w⟩ := by
  obtain ⟨u, v, hu, hv, hshares, hfilled, hempty⟩ := h
  obtain ⟨key, rest, w, hw, hleaf⟩ :=
    exists_leaf_of_isInternal (Value.everywhere_of_get? ha hu) hfilled
  have hgone : ∀ next more, b.get? (keys ++ next :: more) = none := by
    intro next more
    rw [Value.get?_append, hv, Option.bind_some, Value.get?_cons, child?_of_not_isInternal hempty]
    rfl
  refine ⟨key, rest, w, isEdit_delete_iff.mpr ⟨?_, fun _ => hleaf, ?_, ?_⟩⟩
  · rw [Value.get?_append, hu]
    exact hw
  · intro y hy
    rw [hgone] at hy
    cases hy
  · -- Up to `keys` both documents hold containers of one kind, and below the second holds nothing.
    intro before hbefore _ x y hx hy
    obtain rfl | hne := eq_or_ne before keys
    · rw [hu, Option.some.injEq] at hx
      rw [hv, Option.some.injEq] at hy
      exact hx ▸ hy ▸ swapsKind_of_sharesContainer hshares
    · rcases List.prefix_or_prefix_of_prefix hbefore (List.prefix_append keys (key :: rest)) with
        habove | ⟨more, rfl⟩
      · exact unswappedAbove_of_get? hu hv before habove hne x y hx hy
      · cases more with
        | nil => simp at hne
        | cons next more =>
          rw [hgone] at hy
          cases hy

/-- Regrouping a diff keeps its nodes. -/
theorem Diff.perm_of_partition {d : Diff} {nodes : Partition}
    (hlegible : ∀ n ∈ d.delete, ∃ keys, n.IsAt keys) (h : d.partition supportSets = .ok nodes) :
    (nodes.set ++ nodes.remove ++ nodes.delete).Perm (d.add ++ d.set ++ d.delete) := by
  cases supportSets with
  | false =>
    cases h
    rw [List.append_nil]
  | true =>
    have hguess : ∀ n ∈ d.delete, n.isSetElement = .ok (n.isSetElement.toOption.getD false) := by
      intro n hn
      obtain ⟨keys, hpath, hkeys⟩ := hlegible n hn
      rw [Node.isSetElement, hpath, parsePath_pathText hkeys]
      rfl
    have hdeleted := filterM_eq_ok hguess
    have hremoved := filterM_eq_ok (f := fun n : Node => n.isSetElement.map (!·))
      (p := fun n => !(n.isSetElement.toOption.getD false)) fun n hn => by
        rw [hguess n hn]
        rfl
    rw [Diff.partition, if_pos rfl, hdeleted, hremoved] at h
    cases h
    rw [List.append_assoc]
    refine List.Perm.append_left _ (List.perm_append_comm.trans ?_)
    simpa using List.filter_append_perm (fun n => n.isSetElement.toOption.getD false) d.delete

/-- With orphans, the paths of an update are apart just if no container below the root is
    emptied. -/
theorem pairwise_apart_partition_iff {nodes : Partition} (ha : a.IsDocument) (hb : b.IsDocument)
    (h : partition a b true supportSets = .ok nodes) :
    (nodes.set ++ nodes.remove ++ nodes.delete).Pairwise Node.Apart ↔
      ∀ keys, keys ≠ [] → ¬Emptied a b keys := by
  have hshares := sharesContainer_of_isDocument ha hb
  rw [partition] at h
  cases hdiff : diff a b true with
  | error fault =>
    rw [hdiff] at h
    cases h
  | ok d =>
    rw [hdiff] at h
    obtain ⟨ha, hb, rfl⟩ := eq_structuralDiff_of_diff ha.named hb.named hshares hdiff
    have hmem : ∀ {c}, c ∈ structuralEdits true a b ↔ _ :=
      mem_structuralEdits_iff ha.named hb.named hshares
    have hperm := Diff.perm_of_partition (fun n hn => by
      obtain ⟨keys, w, hc, rfl⟩ := mem_bucketNodes.mp hn
      exact ⟨keys, rfl, isLegible_of_isEdit ha hb (hmem.mp hc).2⟩) h
    rw [hperm.pairwise_iff Node.Apart.symm, pairwise_apart_structuralDiff_iff ha hb hshares]
    constructor
    · intro hall keys hne hemptied
      obtain ⟨w, hadd⟩ := hemptied.exists_isEdit_add
      obtain ⟨key, rest, x, hdelete⟩ := hemptied.exists_isEdit_delete ha.named
      have heq := hall _ (hmem.mpr ⟨hne, hadd⟩) _ (hmem.mpr ⟨by simp, hdelete⟩)
        (List.prefix_append keys (key :: rest))
      cases heq
    · intro hnone c hc d hd hprefix
      obtain heq | ⟨-, hemptied⟩ := (hmem.mp hc).2.eq_or_emptied (hmem.mp hd).2 hprefix
      · exact heq
      · exact absurd hemptied (hnone c.keys (hmem.mp hc).1)

end Emptied

/-- A map that is emptied is assigned, while its member is removed. -/
theorem not_pairwise_apart_of_emptied_map :
    let base : Value := .ofNamed [("m", .ofNamed [("a", .int 1)])]
    let modified : Value := .ofNamed [("m", .emptyMap)]
    partition base modified true false =
      .ok ⟨[⟨"$.m", .emptyMap⟩], [⟨"$.m.a", .int 1⟩], []⟩ ∧
      ¬[(⟨"$.m", .emptyMap⟩ : Node), ⟨"$.m.a", .int 1⟩].Pairwise Node.Apart := by
  intro base modified
  have hbase : base.IsDocument := ⟨rfl, by decide, by decide⟩
  have hmodified : modified.IsDocument := ⟨rfl, by decide, by decide⟩
  have hdiff : diff base modified true = .ok (structuralDiff true base modified) :=
    diff_eq_ok true hbase hmodified (by decide) (by decide) (by decide) (by decide)
  have hedits : structuralEdits true base modified =
      [⟨.delete, [.name "m", .name "a"], .int 1⟩, ⟨.add, [.name "m"], .emptyMap⟩] := by decide
  have hnodes : partition base modified true false =
      .ok ⟨[⟨"$.m", .emptyMap⟩], [⟨"$.m.a", .int 1⟩], []⟩ := by
    rw [partition, hdiff, structuralDiff, hedits]
    show Except.ok (⟨sortByPath [⟨"$.m", .emptyMap⟩] ++ sortByPath [],
      sortByPath [⟨"$.m.a", .int 1⟩], []⟩ : Partition) = _
    rw [sortByPath, sortByPath, sortByPath, List.mergeSort_nil, List.mergeSort_singleton,
      List.mergeSort_singleton, List.append_nil]
  refine ⟨hnodes, fun hapart => ?_⟩
  exact (pairwise_apart_partition_iff hbase hmodified hnodes).mp hapart [.name "m"] (by simp)
    ⟨.ofNamed [("a", .int 1)], .emptyMap, rfl, rfl, rfl, rfl, rfl⟩

end ItemDelta
