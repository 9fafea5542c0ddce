import Mathlib.Data.List.Induction
import ItemDelta.Proofs.Diff.Applicable
import ItemDelta.Proofs.Diff.Patching
import ItemDelta.Proofs.Path.Lens

/-!
# Partial documents

A bucket of a diff can be written out as a document of its own. Its nodes lie in one of the two
documents that were compared, and apart from each other. So a write finds the containers on its way
in the right kind, or none, and at its end nothing that another one has written: the partial
document holds the nodes, and besides them just the nulls that lists were padded with.

## Main definitions

* `Value.HoldsJust` — a document holds some nodes and nothing else.
* `IsScattered` — some edits lie in one document, apart from each other.
* `Collects` — a document into which such edits were written.

## Main results

* `Collects.write` — one more edit is written into it.
* `exists_writeNodes` — all of them are.
* `IsEdit.eq_of_prefix` — the edits of one bucket are apart.
* `exists_patches_diff` — the partial documents of a diff hold just its buckets.
-/

namespace ItemDelta

/-- A document holds some nodes and nothing else: each value is read at its path, and a leaf lies at
    or below a node, or is a null at a list position that no node reaches. -/
structure Value.HoldsJust (w : Value) (nodes : List Node) : Prop where
  named : w.everywhere Value.hasNames = true
  reads : ∀ n ∈ nodes, getPath w n.path = .ok (some n.value)
  leaves : ∀ place u, place ≠ [] → w.get? place = some u → u.isInternal = false →
    (∃ n ∈ nodes, ∃ keys, pathKeys n.path = .ok keys ∧ keys <+: place) ∨
      u = .null ∧ (∃ before position, place = before ++ [.index position]) ∧
        ∀ n ∈ nodes, ∀ keys, pathKeys n.path = .ok keys → Apart keys place
  eq_emptyMap_iff : w = .emptyMap ↔ nodes = []

/-- Some edits tell values that one document holds, at places below its root that can be read from
    paths and lie apart from each other. -/
structure IsScattered (source : Value) (edits : List Edit) : Prop where
  below : ∀ c ∈ edits, c.keys ≠ []
  legible : ∀ c ∈ edits, ∀ key ∈ c.keys, key.isLegible = true
  held : ∀ c ∈ edits, source.get? c.keys = some c.value
  apart : edits.Pairwise fun c d => Apart c.keys d.keys

/-- How a value came into a document into which edits of a source were written. -/
inductive IsCollected (source : Value) (edits : List Edit) (place : List Key) (u : Value) : Prop
  | written (c : Edit) (hc : c ∈ edits) (h : c.keys <+: place)
  | above (h : place = [] ∨ ∃ c ∈ edits, place <+: c.keys) (s : Value)
      (hs : source.get? place = some s) (hkind : s.kind = u.kind)
  | padding (hnull : u = .null) (hplace : ∃ before position, place = before ++ [.index position])
      (hapart : ∀ c ∈ edits, Apart c.keys place)

/-- A document into which edits of a source were written. -/
structure Collects (source w : Value) (edits : List Edit) : Prop where
  named : w.everywhere Value.hasNames = true
  container : w.isContainer = true
  reads : ∀ c ∈ edits, w.get? c.keys = some c.value
  places : ∀ place u, w.get? place = some u → IsCollected source edits place u

section Collects

variable {source w y u : Value} {edits : List Edit} {c : Edit} {key : Key} {keys place : List Key}

theorem IsScattered.of_append (h : IsScattered source (edits ++ [c])) :
    IsScattered source edits ∧ ∀ d ∈ edits, Apart d.keys c.keys := by
  obtain ⟨hedits, -, hlast⟩ := List.pairwise_append.mp h.apart
  refine ⟨⟨?_, ?_, ?_, hedits⟩, fun d hd => hlast d hd c List.mem_cons_self⟩
  · exact fun d hd => h.below d (List.mem_append_left _ hd)
  · exact fun d hd => h.legible d (List.mem_append_left _ hd)
  · exact fun d hd => h.held d (List.mem_append_left _ hd)

theorem sharesContainer_emptyAbove_of_kind (h : u.kind = key.containerKind) :
    (Value.emptyAbove key).sharesContainer u = true := by
  cases u <;> cases key <;> first | rfl | cases h

theorem kind_of_get?_append {rest : List Key} {x : Value} (hu : w.get? keys = some u)
    (hx : w.get? (keys ++ key :: rest) = some x) : u.kind = key.containerKind := by
  rw [Value.get?_append, hu, Option.bind_some, Value.get?_cons, Option.bind_eq_some_iff] at hx
  obtain ⟨child, hchild, -⟩ := hx
  exact kind_of_child? hchild

/-- The keys of a further edit suit the document: what stands on the way has the kind that it has in
    the source. -/
theorem Collects.suits (h : Collects source w edits) (hapart : ∀ d ∈ edits, Apart d.keys keys)
    {x : Value} (hget : source.get? keys = some x) : w.Suits keys := by
  rintro before key after v rfl hv hcontainer
  cases h.places before v hv with
  | written d hd hprefix =>
    exact absurd (List.IsPrefix.trans hprefix (List.prefix_append _ _)) (hapart d hd).1
  | above _ s hs hkind =>
    exact sharesContainer_emptyAbove_of_kind (hkind.symm.trans (kind_of_get?_append hs hget))
  | padding hnull =>
    rw [hnull] at hcontainer
    cases hcontainer

theorem IsPadding.exists_eq_append (h : IsPadding keys place) :
    ∃ before position, place = before ++ [.index position] := by
  obtain ⟨before, -, j, -, -, hplace, -⟩ := h
  exact ⟨before, j, hplace⟩

/-- A list is padded where nothing is, so apart from what was written before. -/
theorem Collects.apart_of_isPadding (h : Collects source w edits) (hpadding : IsPadding keys place)
    (hnone : w.get? place = none) (hc : c ∈ edits) (hkeys : ¬c.keys <+: keys) :
    Apart c.keys place := by
  have hread := h.reads c hc
  refine ⟨fun hprefix => ?_, fun hprefix => ?_⟩
  · obtain ⟨before, i, j, after, rfl, rfl, -⟩ := hpadding
    rcases List.prefix_concat_iff.mp hprefix with heq | hbefore
    · rw [heq, hnone] at hread
      cases hread
    · exact hkeys (hbefore.trans (List.prefix_append _ _))
  · obtain ⟨u, hu⟩ := exists_get?_of_prefix hread hprefix
    rw [hnone] at hu
    cases hu

/-- One more edit is written into a document. -/
theorem Collects.write (h : Collects source w edits) (hwritten : IsAssigned w y c.keys c.value)
    (hapart : ∀ d ∈ edits, Apart d.keys c.keys) (hget : source.get? c.keys = some c.value)
    (hne : c.keys ≠ []) (hvalue : c.value.everywhere Value.hasNames = true) :
    Collects source y (edits ++ [c]) where
  named := hwritten.named h.named hvalue
  container := by
    obtain ⟨key, rest, hkeys⟩ := List.exists_cons_of_ne_nil hne
    have hself := hwritten.self
    rw [hkeys, Value.get?_cons, Option.bind_eq_some_iff] at hself
    obtain ⟨child, hchild, -⟩ := hself
    exact Value.isContainer_of_child? hchild
  reads d hd := by
    rcases List.mem_append.mp hd with hd | hd
    · have hread := h.reads d hd
      rcases hwritten.apart d.keys (hapart d hd).symm with heq | ⟨hnone, -⟩
      · exact heq.trans hread
      · rw [hnone] at hread
        cases hread
    · rw [List.mem_singleton.mp hd]
      exact hwritten.self
  places place u hu := by
    have hlast : c ∈ edits ++ [c] := List.mem_append_right _ List.mem_cons_self
    by_cases hbelow : c.keys <+: place
    · exact .written c hlast hbelow
    by_cases habove : place <+: c.keys
    · -- Something is read further down in both documents, so both hold a container here.
      obtain ⟨rest, hrest⟩ := habove
      obtain ⟨key, rest, rfl⟩ := List.exists_cons_of_ne_nil (l := rest) (by
        rintro rfl
        exact hbelow ⟨[], by rw [← hrest, List.append_nil, List.append_nil]⟩)
      have hself := hwritten.self
      rw [← hrest] at hself hget
      obtain ⟨s, hs⟩ := exists_get?_of_prefix hget (List.prefix_append _ _)
      exact .above (.inr ⟨c, hlast, _, hrest⟩) s hs
        ((kind_of_get?_append hs hget).trans (kind_of_get?_append hu hself).symm)
    rcases hwritten.apart place ⟨hbelow, habove⟩ with heq | ⟨hnone, hnull, hpadding⟩
    · rw [heq] at hu
      cases h.places place u hu with
      | written d hd hprefix => exact .written d (List.mem_append_left _ hd) hprefix
      | above hplace s hs hkind =>
        refine .above (hplace.imp_right ?_) s hs hkind
        rintro ⟨d, hd, hprefix⟩
        exact ⟨d, List.mem_append_left _ hd, hprefix⟩
      | padding hnull hplace hothers =>
        refine .padding hnull hplace fun d hd => ?_
        rcases List.mem_append.mp hd with hd | hd
        · exact hothers d hd
        · rw [List.mem_singleton.mp hd]
          exact ⟨hbelow, habove⟩
    · rw [hnull, Option.some.injEq] at hu
      refine .padding hu.symm hpadding.exists_eq_append fun d hd => ?_
      rcases List.mem_append.mp hd with hd | hd
      · exact h.apart_of_isPadding hpadding hnone hd (hapart d hd).1
      · rw [List.mem_singleton.mp hd]
        exact ⟨hbelow, habove⟩

/-- Edits of a source that are apart can be written into an empty map, in any order. -/
theorem exists_writeNodes (hnames : source.everywhere Value.hasNames = true)
    (hmemory : source.everywhere Value.fitsMemory = true) (hkind : source.kind = .map)
    (h : IsScattered source edits) :
    ∃ w, writeNodes .emptyMap (edits.map Edit.node) = .ok w ∧ Collects source w edits := by
  induction edits using List.reverseRecOn with
  | nil =>
    refine ⟨.emptyMap, rfl, rfl, rfl, nofun, fun place u hu => ?_⟩
    cases place with
    | nil =>
      rw [Value.get?_nil, Option.some.injEq] at hu
      exact .above (.inl rfl) source (Value.get?_nil source) (by rw [hkind, ← hu]; rfl)
    | cons key rest => cases key <;> cases hu
  | append_singleton edits c ih =>
    obtain ⟨hedits, hapart⟩ := h.of_append
    obtain ⟨w, hw, hcollects⟩ := ih hedits
    have hlast : c ∈ edits ++ [c] := List.mem_append_right _ List.mem_cons_self
    have hget := h.held c hlast
    obtain ⟨y, hy, hwritten⟩ := exists_assign hcollects.container (h.below c hlast)
      (hcollects.suits hapart hget) (position_lt_of_get? hmemory hget) c.value
    refine ⟨y, ?_, hcollects.write hwritten hapart hget (h.below c hlast)
      (Value.everywhere_of_get? hnames hget)⟩
    have hstep : setPath w c.node.path c.node.value = ⟨y, none⟩ :=
      (setPath_eq_assign (pathKeys_pathText (h.legible c hlast)) w c.value).trans hy
    have hone : writeNodes w [c.node] = .ok y := by
      show (setPath w c.node.path c.node.value).toExcept.bind .ok = _
      rw [hstep]
      rfl
    rw [List.map_append, writeNodes, List.foldlM_append]
    show (writeNodes .emptyMap (edits.map Edit.node)).bind (fun w => writeNodes w [c.node]) = _
    rw [hw]
    exact hone

/-- What such edits were written into holds their nodes and nothing else. -/
theorem Collects.holdsJust (h : Collects source w edits) (hedits : IsScattered source edits)
    (hw : writeNodes .emptyMap (edits.map Edit.node) = .ok w) :
    w.HoldsJust (edits.map Edit.node) where
  named := h.named
  reads n hn := by
    obtain ⟨c, hc, rfl⟩ := List.mem_map.mp hn
    exact (getPath_pathText (hedits.legible c hc) w).trans (congrArg Except.ok (h.reads c hc))
  leaves place u hne hu hleaf := by
    have hkeys : ∀ c ∈ edits, pathKeys c.node.path = .ok c.keys := fun c hc =>
      pathKeys_pathText (hedits.legible c hc)
    cases h.places place u hu with
    | written c hc hprefix =>
      exact .inl ⟨c.node, List.mem_map_of_mem hc, c.keys, hkeys c hc, hprefix⟩
    | above hplace =>
      obtain ⟨c, hc, rest, hrest⟩ := hplace.resolve_left hne
      cases rest with
      | nil =>
        rw [List.append_nil] at hrest
        exact .inl ⟨c.node, List.mem_map_of_mem hc, c.keys, hkeys c hc, hrest ▸ List.prefix_rfl⟩
      | cons key rest =>
        -- A node lies below, so this is no leaf.
        have hinternal := any_isInternal_of_get?_append (hrest ▸ h.reads c hc)
        rw [hu, Option.any_some, hleaf] at hinternal
        cases hinternal
    | padding hnull hplace hapart =>
      refine .inr ⟨hnull, hplace, fun n hn keys hpath => ?_⟩
      obtain ⟨c, hc, rfl⟩ := List.mem_map.mp hn
      rw [hkeys c hc, Except.ok.injEq] at hpath
      exact hpath ▸ hapart c hc
  eq_emptyMap_iff := by
    refine ⟨fun hempty => ?_, fun hnil => ?_⟩
    · by_contra hne
      obtain ⟨n, hn⟩ := List.exists_mem_of_ne_nil _ hne
      obtain ⟨c, hc, -⟩ := List.mem_map.mp hn
      obtain ⟨key, rest, hkeys⟩ := List.exists_cons_of_ne_nil (hedits.below c hc)
      have hread := h.reads c hc
      rw [hempty, hkeys] at hread
      cases key <;> cases hread
    · rw [hnil] at hw
      exact (Except.ok.inj hw).symm

end Collects

/-! ### Buckets -/

section Buckets

variable {orphans : Bool} {a b : Value} {c d : Edit}

/-- The document that the nodes of a bucket come from. -/
def Bucket.source : Bucket → Value → Value → Value
  | .delete, base, _ => base
  | _, _, modified => modified

/-- No edit of a bucket lies above another one of it. -/
theorem IsEdit.eq_of_prefix (hc : IsEdit orphans (some a) (some b) c)
    (hd : IsEdit orphans (some a) (some b) d) (hbucket : c.bucket = d.bucket)
    (h : c.keys <+: d.keys) : c = d := by
  rcases hc.eq_or_emptied hd h with heq | ⟨rfl, u, v, hu, hv, hshares, hfilled, hempty⟩
  · exact heq
  · -- The empty container is added, and nothing else can be added below it.
    have hhere := hc.here
    rw [readAt_some, readAt_some, hu, hv, editHere, deletes_of_sharesContainer hshares,
      swapsKind_of_sharesContainer hshares, hempty, hfilled] at hhere
    have hadd : c.bucket = .add := by
      simp only [Bool.false_eq_true, if_false, if_true, Option.some.injEq, Prod.mk.injEq] at hhere
      exact hhere.1.symm
    obtain ⟨bucket, keys, w⟩ := d
    obtain rfl : bucket = .add := hbucket.symm.trans hadd
    obtain ⟨hw, -⟩ := isEdit_add_iff.mp hd
    obtain ⟨rest, rfl⟩ := h
    cases rest with
    | nil => exact hc.eq_of_keys hd (List.append_nil c.keys).symm
    | cons key rest =>
      have hinternal := any_isInternal_of_get?_append hw
      rw [hv, Option.any_some, hempty] at hinternal
      cases hinternal

theorem isScattered_sortedEdits (orphans : Bool) (ha : a.IsReadable) (hb : b.IsReadable)
    (hshares : a.sharesContainer b = true) (bucket : Bucket) :
    IsScattered (bucket.source a b) (sortedEdits bucket (structuralEdits orphans a b)) := by
  have hedit : ∀ c ∈ sortedEdits bucket (structuralEdits orphans a b), c.bucket = bucket ∧
      c.keys ≠ [] ∧ IsEdit orphans (some a) (some b) c := fun c hc =>
    ⟨(mem_sortedEdits.mp hc).2,
      (mem_structuralEdits_iff ha.named hb.named hshares).mp (mem_sortedEdits.mp hc).1⟩
  have hnodup : (sortedEdits bucket (structuralEdits orphans a b)).Nodup :=
    (List.mergeSort_perm _ _).nodup_iff.mpr ((nodup_structuralEdits ha.named hb.named).filter _)
  refine ⟨fun c hc => (hedit c hc).2.1, fun c hc => ?_, fun c hc => ?_, ?_⟩
  · exact isLegible_of_isEdit ha hb (hedit c hc).2.2
  · obtain ⟨rfl, -, hc⟩ := hedit c hc
    obtain ⟨bucket, keys, w⟩ := c
    cases bucket with
    | add => exact (isEdit_add_iff.mp hc).1
    | set =>
      obtain ⟨x, -, hw, -⟩ := isEdit_set_iff.mp hc
      exact hw
    | delete => exact (isEdit_delete_iff.mp hc).1
  · refine hnodup.pairwise_of_forall_ne fun c hc d hd hne => ⟨fun hprefix => hne ?_,
      fun hprefix => hne ?_⟩
    all_goals
      obtain ⟨hcb, -, hc⟩ := hedit c hc
      obtain ⟨hdb, -, hd⟩ := hedit d hd
    · exact hc.eq_of_prefix hd (hcb.trans hdb.symm) hprefix
    · exact (hd.eq_of_prefix hc (hdb.trans hcb.symm) hprefix).symm

end Buckets

/-- The partial documents of a diff hold its buckets and nothing else. -/
theorem exists_patches_diff (orphans : Bool) {a b : Value} (ha : a.IsDocument) (hb : b.IsDocument)
    (hma : a.everywhere Value.fitsMemory = true) (hmb : b.everywhere Value.fitsMemory = true)
    {d : Diff} (h : diff a b orphans = .ok d) :
    ∃ p, d.patches = .ok p ∧ p.add.HoldsJust d.add ∧ p.set.HoldsJust d.set ∧
      p.delete.HoldsJust d.delete := by
  have hshares := sharesContainer_of_isDocument ha hb
  obtain ⟨hra, hrb, rfl⟩ := eq_structuralDiff_of_diff ha.named hb.named hshares h
  have hbucket : ∀ bucket : Bucket, ∃ w,
      writeNodes .emptyMap (bucketNodes bucket (structuralEdits orphans a b)) = .ok w ∧
        w.HoldsJust (bucketNodes bucket (structuralEdits orphans a b)) := by
    intro bucket
    have hscattered := isScattered_sortedEdits orphans hra hrb hshares bucket
    have hsource : (bucket.source a b).IsDocument ∧
        (bucket.source a b).everywhere Value.fitsMemory = true := by
      cases bucket with
      | delete => exact ⟨ha, hma⟩
      | _ => exact ⟨hb, hmb⟩
    obtain ⟨members, hmembers⟩ := hsource.1.exists_eq_map
    obtain ⟨w, hw, hcollects⟩ := exists_writeNodes hsource.1.named hsource.2
      (by rw [hmembers]; rfl) hscattered
    rw [← map_node_sortedEdits]
    exact ⟨w, hw, hcollects.holdsJust hscattered hw⟩
  obtain ⟨added, hadded, hadd⟩ := hbucket .add
  obtain ⟨changed, hchanged, hset⟩ := hbucket .set
  obtain ⟨removed, hremoved, hdelete⟩ := hbucket .delete
  refine ⟨⟨added, changed, removed⟩, ?_, hadd, hset, hdelete⟩
  simp only [Diff.patches, structuralDiff, hadded, hchanged, hremoved]
  rfl

/-- A changed element at the end of a list, a new member and its map, a list that loses an
    element. -/
theorem patches_of_changed_element :
    let base : Value := .ofNamed [("a", .list [.int 1, .int 2, .int 3]), ("b", .list [.int 4])]
    let modified : Value := .ofNamed [("a", .list [.int 1, .int 2, .text "x"]), ("b", .emptyList),
      ("c", .ofNamed [("d", .null)])]
    structuralEdits true base modified = [⟨.set, [.name "a", .index 2], .text "x"⟩,
      ⟨.delete, [.name "b", .index 0], .int 4⟩, ⟨.add, [.name "b"], .emptyList⟩,
      ⟨.add, [.name "c", .name "d"], .null⟩] ∧
    ∃ p, (structuralDiff true base modified).patches = .ok p ∧
      getPath p.add "$.b" = .ok (some .emptyList) ∧ getPath p.add "$.c.d" = .ok (some .null) ∧
      getPath p.set "$.a[2]" = .ok (some (.text "x")) ∧
      getPath p.delete "$.b[0]" = .ok (some (.int 4)) ∧
      p.set.HoldsJust (structuralDiff true base modified).set := by
  intro base modified
  have hbase : base.IsDocument := ⟨rfl, by decide, by decide⟩
  have hmodified : modified.IsDocument := ⟨rfl, by decide, by decide⟩
  have hdiff : diff base modified true = .ok (structuralDiff true base modified) :=
    diff_eq_ok true hbase hmodified (by decide) (by decide) (by decide) (by decide)
  have hedits : structuralEdits true base modified = [⟨.set, [.name "a", .index 2], .text "x"⟩,
      ⟨.delete, [.name "b", .index 0], .int 4⟩, ⟨.add, [.name "b"], .emptyList⟩,
      ⟨.add, [.name "c", .name "d"], .null⟩] := by decide +kernel
  have hmem : ∀ {bucket keys w}, ⟨bucket, keys, w⟩ ∈ structuralEdits true base modified →
      Node.along keys w ∈ bucketNodes bucket (structuralEdits true base modified) :=
    fun {_ keys w} h => mem_bucketNodes.mpr ⟨keys, w, h, rfl⟩
  obtain ⟨p, hp, hadd, hset, hdelete⟩ :=
    exists_patches_diff true hbase hmodified (by decide) (by decide) hdiff
  refine ⟨hedits, p, hp, ?_, ?_, ?_, ?_, hset⟩
  · exact hadd.reads (Node.along [.name "b"] .emptyList) (hmem (by rw [hedits]; simp))
  · exact hadd.reads (Node.along [.name "c", .name "d"] .null) (hmem (by rw [hedits]; simp))
  · exact hset.reads (Node.along [.name "a", .index 2] (.text "x")) (hmem (by rw [hedits]; simp))
  · exact hdelete.reads (Node.along [.name "b", .index 0] (.int 4)) (hmem (by rw [hedits]; simp))

end ItemDelta
