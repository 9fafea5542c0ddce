import ItemDelta.Diff.Partition
import ItemDelta.Proofs.Diff.Pointwise
import ItemDelta.Proofs.Node.Selection

/-!
# The buckets of a diff

The diff of two documents flattens both of them and works on paths alone. Its buckets are
nevertheless those of the structural diff, in the order of their paths.

## Main definitions

* `structuralDiff` — the edits of the structural diff as nodes, in buckets sorted by path.
* `Value.IsDiffable` — a document that has a diff to every other one.

## Main results

* `diff_eq_structuralDiff` — the diff of two documents without NaN is the structural diff.
* `eq_structuralDiff_of_diff` — so is the diff of any two documents, if there is one.
* `ascending_bucketNodes` — no bucket has two nodes at one path.
* `partition_of_edit` — a diff of one edit, regrouped.
-/

namespace ItemDelta

/-- The node of an edit. -/
def Edit.node (c : Edit) : Node := Node.along c.keys c.value

/-- The nodes of the edits of one bucket, sorted by path. -/
def bucketNodes (bucket : Bucket) (edits : List Edit) : List Node :=
  sortByPath ((edits.filter fun c => c.bucket = bucket).map Edit.node)

/-- The edits between two documents as a diff. -/
def structuralDiff (orphans : Bool) (base modified : Value) : Diff :=
  let edits := structuralEdits orphans base modified
  { add := bucketNodes .add edits
    set := bucketNodes .set edits
    delete := bucketNodes .delete edits }

theorem mem_bucketNodes {bucket : Bucket} {edits : List Edit} {n : Node} :
    n ∈ bucketNodes bucket edits ↔
      ∃ keys w, ⟨bucket, keys, w⟩ ∈ edits ∧ n = Node.along keys w := by
  rw [bucketNodes, mem_sortByPath, List.mem_map]
  constructor
  · rintro ⟨⟨other, keys, w⟩, hc, rfl⟩
    rw [List.mem_filter, decide_eq_true_eq] at hc
    obtain ⟨hc, rfl⟩ := hc
    exact ⟨keys, w, hc, rfl⟩
  · rintro ⟨keys, w, hc, rfl⟩
    exact ⟨⟨bucket, keys, w⟩, List.mem_filter.mpr ⟨hc, decide_eq_true rfl⟩, rfl⟩

/-- The buckets share out the edits among them. -/
theorem perm_filter_bucket (edits : List Edit) :
    ((edits.filter fun c => c.bucket = .add) ++ (edits.filter fun c => c.bucket = .set) ++
      edits.filter fun c => c.bucket = .delete).Perm edits := by
  induction edits with
  | nil => exact .refl _
  | cons c edits ih =>
    simp only [List.filter_cons]
    cases c.bucket with
    | add => exact ih.cons c
    | set =>
      rw [List.append_assoc] at ih ⊢
      exact List.perm_middle.trans (ih.cons c)
    | delete => exact List.perm_middle.trans (ih.cons c)

/-! ### What two values at one place are -/

section Here

variable {orphans : Bool} {u v : Option Value} {w : Value}

theorem editHere_eq_add_iff : editHere orphans u v = some (.add, w) ↔
    v = some w ∧ (orphans = true → w.isInternal = false) ∧
      ∀ x, u = some x → orphans = true ∧ x.isInternal = true ∧ swapsKind x w = false := by
  -- A filled container that is not swapped for something else is not deleted.
  have hdeletes : ∀ x, x.isInternal = true → swapsKind x w = false → deletes x w = false := by
    intro x hx hs
    by_contra hd
    rw [swapsKind_of_deletes (Bool.not_eq_false _ ▸ hd), hx] at hs
    cases hs
  cases u <;> cases v <;> grind [editHere]

theorem editHere_eq_set_iff : editHere orphans u v = some (.set, w) ↔
    ∃ x, u = some x ∧ v = some w ∧ deletes x w = false ∧ (swapsKind x w = true ∨
      x.isInternal = false ∧ w.isInternal = false ∧ x.differs w = true) := by
  cases u <;> cases v <;> grind [editHere]

theorem editHere_eq_delete_iff : editHere orphans u v = some (.delete, w) ↔
    u = some w ∧ (v = none → w.isInternal = false) ∧ ∀ y, v = some y → deletes w y = true := by
  cases u <;> cases v <;> grind [editHere]

end Here

/-! ### What the places above are -/

section Above

variable {orphans : Bool} {a b : Value} {keys before : List Key} {w : Value}

/-- No container is swapped for something else strictly above a place. -/
def UnswappedAbove (a b : Value) (keys : List Key) : Prop :=
  ∀ before, before <+: keys → before ≠ keys → ∀ x y, a.get? before = some x →
    b.get? before = some y → swapsKind x y = false

/-- No container is swapped for something else at a place or above it. -/
def Unswapped (a b : Value) (keys : List Key) : Prop :=
  UnswappedAbove a b keys ∧
    ∀ x y, a.get? keys = some x → b.get? keys = some y → swapsKind x y = false

theorem exists_get?_of_prefix (hw : a.get? keys = some w) (hbefore : before <+: keys) :
    ∃ u, a.get? before = some u := by
  obtain ⟨rest, rfl⟩ := hbefore
  rw [Value.get?_append, Option.bind_eq_some_iff] at hw
  obtain ⟨u, hu, -⟩ := hw
  exact ⟨u, hu⟩

theorem unswappedAbove_of_get? {x : Value} (hx : a.get? keys = some x)
    (hw : b.get? keys = some w) : UnswappedAbove a b keys := by
  intro before hbefore hne u v hu hv
  obtain ⟨rest, rfl⟩ := hbefore
  cases rest with
  | nil => simp at hne
  | cons key rest =>
    rw [Value.get?_append, hu, Option.bind_some, Value.get?_cons, Option.bind_eq_some_iff] at hx
    rw [Value.get?_append, hv, Option.bind_some, Value.get?_cons, Option.bind_eq_some_iff] at hw
    obtain ⟨_, hx, -⟩ := hx
    obtain ⟨_, hw, -⟩ := hw
    exact swapsKind_of_sharesContainer (sharesContainer_of_child? hx hw)

theorem isEdit_set_iff : IsEdit orphans (some a) (some b) ⟨.set, keys, w⟩ ↔
    ∃ x, a.get? keys = some x ∧ b.get? keys = some w ∧ deletes x w = false ∧
      (swapsKind x w = true ∨
        x.isInternal = false ∧ w.isInternal = false ∧ x.differs w = true) := by
  refine ⟨fun h => editHere_eq_set_iff.mp h.here, fun h =>
    ⟨editHere_eq_set_iff.mpr h, fun before hbefore hne => ?_⟩⟩
  obtain ⟨x, hx, hw, -⟩ := h
  obtain ⟨u, hu⟩ := exists_get?_of_prefix hx hbefore
  obtain ⟨v, hv⟩ := exists_get?_of_prefix hw hbefore
  rw [readAt_some, readAt_some, hu, hv, descends,
    unswappedAbove_of_get? hx hw before hbefore hne u v hu hv, Bool.not_false]

theorem isEdit_delete_iff : IsEdit orphans (some a) (some b) ⟨.delete, keys, w⟩ ↔
    a.get? keys = some w ∧ (b.get? keys = none → w.isInternal = false) ∧
      (∀ y, b.get? keys = some y → deletes w y = true) ∧ UnswappedAbove a b keys := by
  constructor
  · rintro ⟨hhere, habove⟩
    obtain ⟨hw, hnone, hdeletes⟩ := editHere_eq_delete_iff.mp hhere
    refine ⟨hw, hnone, hdeletes, fun before hbefore hne x y hx hy => ?_⟩
    have hdescends := habove before hbefore hne
    rw [readAt_some, readAt_some, hx, hy] at hdescends
    simpa [descends] using hdescends
  · rintro ⟨hw, hnone, hdeletes, hunswapped⟩
    refine ⟨editHere_eq_delete_iff.mpr ⟨hw, hnone, hdeletes⟩, fun before hbefore hne => ?_⟩
    obtain ⟨u, hu⟩ := exists_get?_of_prefix hw hbefore
    rw [readAt_some, readAt_some, hu]
    cases hv : b.get? before with
    | none => rfl
    | some v => rw [descends, hunswapped before hbefore hne u v hu hv, Bool.not_false]

theorem isEdit_add_iff : IsEdit orphans (some a) (some b) ⟨.add, keys, w⟩ ↔
    b.get? keys = some w ∧ (orphans = true → w.isInternal = false) ∧
      (∀ x, a.get? keys = some x →
        orphans = true ∧ x.isInternal = true ∧ swapsKind x w = false) ∧
      UnswappedAbove a b keys ∧
      (orphans = false → ∀ before, before <+: keys → before ≠ keys →
        (a.get? before).isSome = true) := by
  constructor
  · rintro ⟨hhere, habove⟩
    obtain ⟨hw, hleaf, hx⟩ := editHere_eq_add_iff.mp hhere
    refine ⟨hw, hleaf, hx, fun before hbefore hne x y hx hy => ?_,
      fun horphans before hbefore hne => ?_⟩
    · have hdescends := habove before hbefore hne
      rw [readAt_some, readAt_some, hx, hy] at hdescends
      simpa [descends] using hdescends
    · have hdescends := habove before hbefore hne
      obtain ⟨v, hv⟩ := exists_get?_of_prefix hw hbefore
      rw [readAt_some, readAt_some, hv, horphans] at hdescends
      cases hu : a.get? before with
      | none => simp [hu, descends] at hdescends
      | some u => rfl
  · rintro ⟨hw, hleaf, hx, hunswapped, habove⟩
    refine ⟨editHere_eq_add_iff.mpr ⟨hw, hleaf, hx⟩, fun before hbefore hne => ?_⟩
    obtain ⟨v, hv⟩ := exists_get?_of_prefix hw hbefore
    rw [readAt_some, readAt_some, hv]
    cases hu : a.get? before with
    | some u => rw [descends, hunswapped before hbefore hne u v hu hv, Bool.not_false]
    | none =>
      rw [descends]
      by_contra horphans
      simpa [hu] using habove ((Bool.not_eq_true _).mp horphans) before hbefore hne

end Above

/-! ### Selections of the flat diff -/

section Flat

variable {orphans : Bool} {a b : Value} {n : Node}

theorem mem_removedNodes (ha : a.IsReadable) (hb : b.IsReadable) :
    n ∈ removedNodes (leavesOf a) (allNodes b) ↔
      ∃ keys w, keys ≠ [] ∧ a.get? keys = some w ∧ w.isInternal = false ∧
        (∀ y, b.get? keys = some y → deletes w y = true) ∧ n = Node.along keys w := by
  rw [removedNodes, List.mem_filter, mem_leavesOf ha.named]
  constructor
  · rintro ⟨⟨keys, w, hne, hw, hleaf, rfl⟩, htest⟩
    refine ⟨keys, w, hne, hw, hleaf, fun y hy => ?_, rfl⟩
    rwa [Node.along_path, nodeAt?_allNodes hb hne (ha.legible keys w hw), hy] at htest
  · rintro ⟨keys, w, hne, hw, hleaf, hdeletes, rfl⟩
    refine ⟨⟨keys, w, hne, hw, hleaf, rfl⟩, ?_⟩
    rw [Node.along_path, nodeAt?_allNodes hb hne (ha.legible keys w hw)]
    cases hy : b.get? keys with
    | none => rfl
    | some y => exact hdeletes y hy

theorem counterpart?_leavesOf (ha : a.IsReadable) {keys : List Key} {w : Value} (hne : keys ≠ [])
    (hkeys : ∀ key ∈ keys, key.isLegible = true) :
    counterpart? (leavesOf a) (Node.along keys w) =
      ((a.get? keys).filter fun x => !x.isInternal && !deletes x w).map (Node.along keys) := by
  rw [counterpart?, Node.along_path, nodeAt?_leavesOf ha hne hkeys]
  cases a.get? keys with
  | none => rfl
  | some x => cases hx : x.isInternal <;> simp [Option.filter, hx]

theorem mem_updatedNodes (ha : a.IsReadable) (hb : b.IsReadable) :
    n ∈ updatedNodes (leavesOf a) (leavesOf b) ↔
      ∃ keys x w, keys ≠ [] ∧ a.get? keys = some x ∧ b.get? keys = some w ∧
        x.isInternal = false ∧ w.isInternal = false ∧ deletes x w = false ∧
        x.differs w = true ∧ n = Node.along keys w := by
  rw [updatedNodes, List.mem_filter, mem_leavesOf hb.named]
  constructor
  · rintro ⟨⟨keys, w, hne, hw, hleaf, rfl⟩, htest⟩
    rw [counterpart?_leavesOf ha hne (hb.legible keys w hw), Option.any_map,
      Option.any_eq_true] at htest
    obtain ⟨x, hx, hdiffers⟩ := htest
    simp only [Option.filter_eq_some_iff, Bool.and_eq_true, Bool.not_eq_true'] at hx
    exact ⟨keys, x, w, hne, hx.1, hw, hx.2.1, hleaf, hx.2.2, hdiffers, rfl⟩
  · rintro ⟨keys, x, w, hne, hx, hw, hxleaf, hleaf, hdeletes, hdiffers, rfl⟩
    refine ⟨⟨keys, w, hne, hw, hleaf, rfl⟩, ?_⟩
    rw [counterpart?_leavesOf ha hne (hb.legible keys w hw), hx]
    simpa [Option.filter, hxleaf, hdeletes] using hdiffers

/-- The nodes of both documents at one path, if one is swapped for the other. -/
def swap? (baseNodes : List Node) (m : Node) : Option (Node × Node) :=
  (nodeAt? baseNodes m.path).bind fun l =>
    if swapsKind l.value m.value then some (l, m) else none

theorem replacedNodes_eq (baseNodes modifiedNodes : List Node) :
    replacedNodes baseNodes modifiedNodes =
      (((modifiedNodes.filterMap (swap? baseNodes)).filter fun swap =>
          !deletes swap.1.value swap.2.value).map (·.2),
        ((modifiedNodes.filterMap (swap? baseNodes)).filter fun swap =>
          deletes swap.1.value swap.2.value).map (·.1)) := by
  refine Prod.ext (congrArg (fun swaps : List (Node × Node) => (swaps.filter _).map _) ?_)
    (congrArg (fun swaps : List (Node × Node) => (swaps.filter _).map _) ?_)
  all_goals
    refine List.filterMap_congr fun m _ => ?_
    rw [swap?]
    cases nodeAt? baseNodes m.path <;> rfl

theorem mem_swaps (ha : a.IsReadable) (hb : b.IsReadable)
    {swap : Node × Node} : swap ∈ (allNodes b).filterMap (swap? (allNodes a)) ↔
      ∃ keys x w, keys ≠ [] ∧ a.get? keys = some x ∧ b.get? keys = some w ∧
        swapsKind x w = true ∧ swap = (Node.along keys x, Node.along keys w) := by
  rw [List.mem_filterMap]
  constructor
  · rintro ⟨m, hm, heq⟩
    obtain ⟨keys, w, hne, hw, rfl⟩ := (mem_allNodes hb.named).mp hm
    rw [swap?, Node.along_path, nodeAt?_allNodes ha hne (hb.legible keys w hw),
      Option.bind_eq_some_iff] at heq
    obtain ⟨l, hl, heq⟩ := heq
    obtain ⟨x, hx, rfl⟩ := Option.map_eq_some_iff.mp hl
    obtain ⟨hswaps, heq⟩ := Option.ite_none_right_eq_some.mp heq
    exact ⟨keys, x, w, hne, hx, hw, hswaps, (Option.some.inj heq).symm⟩
  · rintro ⟨keys, x, w, hne, hx, hw, hswaps, rfl⟩
    refine ⟨Node.along keys w, (mem_allNodes hb.named).mpr ⟨keys, w, hne, hw, rfl⟩, ?_⟩
    rw [swap?, Node.along_path, nodeAt?_allNodes ha hne (hb.legible keys w hw), hx]
    simp [hswaps]

theorem mem_replacedNodes_fst (ha : a.IsReadable) (hb : b.IsReadable) :
    n ∈ (replacedNodes (allNodes a) (allNodes b)).1 ↔
      ∃ keys x w, keys ≠ [] ∧ a.get? keys = some x ∧ b.get? keys = some w ∧
        swapsKind x w = true ∧ deletes x w = false ∧ n = Node.along keys w := by
  simp only [replacedNodes_eq, List.mem_map, List.mem_filter, mem_swaps ha hb]
  constructor
  · rintro ⟨_, ⟨⟨keys, x, w, hne, hx, hw, hswaps, rfl⟩, hdeletes⟩, rfl⟩
    exact ⟨keys, x, w, hne, hx, hw, hswaps, by simpa using hdeletes, rfl⟩
  · rintro ⟨keys, x, w, hne, hx, hw, hswaps, hdeletes, rfl⟩
    exact ⟨_, ⟨⟨keys, x, w, hne, hx, hw, hswaps, rfl⟩, by simpa using hdeletes⟩, rfl⟩

theorem mem_replacedNodes_snd (ha : a.IsReadable) (hb : b.IsReadable) :
    n ∈ (replacedNodes (allNodes a) (allNodes b)).2 ↔
      ∃ keys x w, keys ≠ [] ∧ a.get? keys = some x ∧ b.get? keys = some w ∧
        swapsKind x w = true ∧ deletes x w = true ∧ n = Node.along keys x := by
  simp only [replacedNodes_eq, List.mem_map, List.mem_filter, mem_swaps ha hb]
  constructor
  · rintro ⟨_, ⟨⟨keys, x, w, hne, hx, hw, hswaps, rfl⟩, hdeletes⟩, rfl⟩
    exact ⟨keys, x, w, hne, hx, hw, hswaps, hdeletes, rfl⟩
  · rintro ⟨keys, x, w, hne, hx, hw, hswaps, hdeletes, rfl⟩
    exact ⟨_, ⟨⟨keys, x, w, hne, hx, hw, hswaps, rfl⟩, hdeletes⟩, rfl⟩

theorem mem_replacedNodes (ha : a.IsReadable) (hb : b.IsReadable) :
    n ∈ (replacedNodes (allNodes a) (allNodes b)).1 ++
        (replacedNodes (allNodes a) (allNodes b)).2 ↔
      ∃ keys x w, keys ≠ [] ∧ a.get? keys = some x ∧ b.get? keys = some w ∧
        swapsKind x w = true ∧ n = Node.along keys (if deletes x w then x else w) := by
  rw [List.mem_append, mem_replacedNodes_fst ha hb, mem_replacedNodes_snd ha hb]
  constructor
  · rintro (⟨keys, x, w, hne, hx, hw, hswaps, hdeletes, rfl⟩ |
      ⟨keys, x, w, hne, hx, hw, hswaps, hdeletes, rfl⟩)
    · exact ⟨keys, x, w, hne, hx, hw, hswaps, by simp [hdeletes]⟩
    · exact ⟨keys, x, w, hne, hx, hw, hswaps, by simp [hdeletes]⟩
  · rintro ⟨keys, x, w, hne, hx, hw, hswaps, rfl⟩
    cases hdeletes : deletes x w with
    | false => exact .inl ⟨keys, x, w, hne, hx, hw, hswaps, hdeletes, by simp⟩
    | true => exact .inr ⟨keys, x, w, hne, hx, hw, hswaps, hdeletes, by simp⟩

/-- The nodes outside some roots are those at or above which no root lies. -/
theorem exists_outside_eq_filter {nodes roots : List Node}
    (hnodes : ∀ n ∈ nodes, ∃ keys, n.IsAt keys) (hroots : ∀ n ∈ roots, ∃ keys, n.IsAt keys) :
    ∃ p : Node → Bool, outside nodes roots = .ok (nodes.filter p) ∧
      ∀ n ∈ nodes, ∀ keys, n.IsAt keys → (p n = true ↔
        ∀ m ∈ roots, ∀ others, m.IsAt others → others ≠ keys ∧ others ∉ properPrefixes keys) := by
  refine ⟨fun n => !(pathsOf roots).contains n.path && !(pathsOf roots).any n.ancestors.contains,
    ?_, ?_⟩
  · rw [outside]
    refine filterM_eq_ok fun n hn => ?_
    obtain ⟨keys, hkeys⟩ := hnodes n hn
    rw [hkeys.ancestorPaths]
    cases (pathsOf roots).contains n.path <;> rfl
  · intro n hn keys hkeys
    have hcontains : (pathsOf roots).contains n.path = true ↔ ∃ m ∈ roots, m.IsAt keys := by
      rw [List.contains_iff_mem, pathsOf, List.mem_map]
      constructor
      · rintro ⟨m, hm, hpath⟩
        exact ⟨m, hm, hpath.trans hkeys.1, hkeys.2⟩
      · rintro ⟨m, hm, hat⟩
        exact ⟨m, hm, hat.1.trans hkeys.1.symm⟩
    have hany : (pathsOf roots).any n.ancestors.contains = true ↔
        ∃ m ∈ roots, ∃ others, m.IsAt others ∧ others ∈ properPrefixes keys := by
      simp only [pathsOf, List.any_map, List.any_eq_true, Function.comp_apply,
        List.contains_iff_mem]
      constructor
      · rintro ⟨m, hm, hmem⟩
        obtain ⟨others, hothers⟩ := hroots m hm
        exact ⟨m, hm, others, hothers, (hothers.mem_ancestors_iff hkeys).mp hmem⟩
      · rintro ⟨m, hm, others, hothers, hmem⟩
        exact ⟨m, hm, (hothers.mem_ancestors_iff hkeys).mpr hmem⟩
    rw [Bool.and_eq_true, Bool.not_eq_true', Bool.not_eq_true', ← Bool.not_eq_true,
      ← Bool.not_eq_true, hcontains, hany]
    constructor
    · rintro ⟨hat, habove⟩ m hm others hothers
      exact ⟨fun heq => hat ⟨m, hm, heq ▸ hothers⟩,
        fun hmem => habove ⟨m, hm, others, hothers, hmem⟩⟩
    · intro h
      refine ⟨?_, ?_⟩
      · rintro ⟨m, hm, hat⟩
        exact (h m hm keys hat).1 rfl
      · rintro ⟨m, hm, others, hothers, hmem⟩
        exact (h m hm others hothers).2 hmem

theorem exists_outside_swaps (ha : a.IsReadable) (hb : b.IsReadable)
    (hshares : a.sharesContainer b = true) {nodes : List Node}
    (hnodes : ∀ n ∈ nodes, ∃ keys, n.IsAt keys) :
    ∃ p : Node → Bool,
      outside nodes ((replacedNodes (allNodes a) (allNodes b)).1 ++
        (replacedNodes (allNodes a) (allNodes b)).2) = .ok (nodes.filter p) ∧
      ∀ n ∈ nodes, ∀ keys, n.IsAt keys → (p n = true ↔ Unswapped a b keys) := by
  obtain ⟨p, hp, hspec⟩ := exists_outside_eq_filter hnodes fun m hm => by
    obtain ⟨keys, x, w, -, hx, -, -, rfl⟩ := (mem_replacedNodes ha hb).mp hm
    exact ⟨keys, rfl, ha.legible keys x hx⟩
  refine ⟨p, hp, fun n hn keys hkeys => ?_⟩
  rw [hspec n hn keys hkeys]
  -- Every swap below the roots is among the nodes that were replaced.
  have hswap : ∀ before x y, a.get? before = some x → b.get? before = some y →
      (before ≠ [] → ∀ m, m ∈ (replacedNodes (allNodes a) (allNodes b)).1 ++
        (replacedNodes (allNodes a) (allNodes b)).2 → ¬m.IsAt before) →
      swapsKind x y = false := by
    intro before x y hx hy hnot
    by_cases hnil : before = []
    · -- The roots are containers of one kind.
      subst hnil
      rw [Value.get?_nil, Option.some.injEq] at hx hy
      rw [← hx, ← hy]
      exact swapsKind_of_sharesContainer hshares
    · by_contra hswaps
      rw [Bool.not_eq_false] at hswaps
      exact hnot hnil _ ((mem_replacedNodes ha hb).mpr ⟨before, x, y, hnil, hx, hy, hswaps, rfl⟩)
        ⟨rfl, ha.legible before x hx⟩
  constructor
  · intro h
    refine ⟨fun before hbefore hne x y hx hy => ?_, fun x y hx hy => ?_⟩
    · exact hswap before x y hx hy fun hnil m hm hat =>
        (h m hm before hat).2 (mem_properPrefixes.mpr ⟨hnil, hbefore, hne⟩)
    · exact hswap keys x y hx hy fun _ m hm hat => (h m hm keys hat).1 rfl
  · rintro ⟨habove, hat⟩ m hm others hothers
    obtain ⟨found, x, w, -, hx, hw, hswaps, rfl⟩ := (mem_replacedNodes ha hb).mp hm
    have hfound : found = others :=
      (show (Node.along found _).IsAt found from ⟨rfl, ha.legible found x hx⟩).unique hothers
    subst hfound
    constructor
    · rintro rfl
      rw [hat x w hx hw] at hswaps
      cases hswaps
    · intro hmem
      obtain ⟨-, hprefix, hne⟩ := mem_properPrefixes.mp hmem
      rw [habove found hprefix hne x w hx hw] at hswaps
      cases hswaps

theorem mem_newLeaves (ha : a.IsReadable) (hb : b.IsReadable) :
    n ∈ (leavesOf b).filter (fun m => !(pathsOf (leavesOf a)).contains m.path) ↔
      ∃ keys w, keys ≠ [] ∧ b.get? keys = some w ∧ w.isInternal = false ∧
        (∀ x, a.get? keys = some x → x.isInternal = true) ∧ n = Node.along keys w := by
  rw [List.mem_filter, mem_leavesOf hb.named]
  constructor
  · rintro ⟨⟨keys, w, hne, hw, hleaf, rfl⟩, htest⟩
    have hkeys := hb.legible keys w hw
    rw [Node.along_path, contains_pathsOf, nodeAt?_leavesOf ha hne hkeys] at htest
    refine ⟨keys, w, hne, hw, hleaf, fun x hx => ?_, rfl⟩
    by_contra hx'
    simp [hx, Option.filter, hx'] at htest
  · rintro ⟨keys, w, hne, hw, hleaf, hx, rfl⟩
    refine ⟨⟨keys, w, hne, hw, hleaf, rfl⟩, ?_⟩
    rw [Node.along_path, contains_pathsOf, nodeAt?_leavesOf ha hne (hb.legible keys w hw)]
    cases hget : a.get? keys with
    | none => rfl
    | some x => simp [Option.filter, hx x hget]

theorem mem_newNodes (ha : a.IsReadable) (hb : b.IsReadable) :
    n ∈ (allNodes b).filter (fun m => !(pathsOf (allNodes a)).contains m.path) ↔
      ∃ keys w, keys ≠ [] ∧ b.get? keys = some w ∧ a.get? keys = none ∧
        n = Node.along keys w := by
  rw [List.mem_filter, mem_allNodes hb.named]
  constructor
  · rintro ⟨⟨keys, w, hne, hw, rfl⟩, htest⟩
    have hkeys := hb.legible keys w hw
    rw [Node.along_path, contains_pathsOf, nodeAt?_allNodes ha hne hkeys] at htest
    exact ⟨keys, w, hne, hw, by simpa using htest, rfl⟩
  · rintro ⟨keys, w, hne, hw, hnone, rfl⟩
    refine ⟨⟨keys, w, hne, hw, rfl⟩, ?_⟩
    rw [Node.along_path, contains_pathsOf, nodeAt?_allNodes ha hne (hb.legible keys w hw), hnone]
    rfl

/-- The roots among the new nodes are those above which the base document has a value
    everywhere. -/
theorem exists_newRoots_eq (ha : a.IsReadable) (hb : b.IsReadable) :
    ∃ roots, rootNodes ((allNodes b).filter fun m => !(pathsOf (allNodes a)).contains m.path) =
        .ok roots ∧
      Ascending roots ∧
      ∀ n, n ∈ roots ↔ ∃ keys w, keys ≠ [] ∧ b.get? keys = some w ∧ a.get? keys = none ∧
        (∀ before, before <+: keys → before ≠ keys → (a.get? before).isSome = true) ∧
        n = Node.along keys w := by
  obtain ⟨p, hp, hspec⟩ := exists_rootNodes_eq_filter fun n hn => by
    obtain ⟨keys, w, -, hw, -, rfl⟩ := (mem_newNodes ha hb).mp hn
    exact ⟨keys, rfl, hb.legible keys w hw⟩
  refine ⟨_, hp, ((ascending_allNodes hb).filter _).filter p, fun n => ?_⟩
  rw [List.mem_filter, mem_newNodes ha hb]
  constructor
  · rintro ⟨⟨keys, w, hne, hw, hnone, rfl⟩, hroot⟩
    have hnew := (mem_newNodes ha hb).mpr ⟨keys, w, hne, hw, hnone, rfl⟩
    rw [hspec _ hnew keys ⟨rfl, hb.legible keys w hw⟩] at hroot
    refine ⟨keys, w, hne, hw, hnone, fun before hbefore hneq => ?_, rfl⟩
    -- Otherwise the value above would be new as well.
    by_contra hmissing
    rw [Bool.not_eq_true, Option.isSome_eq_false_iff, Option.isNone_iff_eq_none] at hmissing
    obtain ⟨v, hv⟩ := exists_get?_of_prefix hw hbefore
    by_cases hnil : before = []
    · rw [hnil, Value.get?_nil] at hmissing
      cases hmissing
    · exact hroot _ ((mem_newNodes ha hb).mpr ⟨before, v, hnil, hv, hmissing, rfl⟩) before
        ⟨rfl, hb.legible before v hv⟩ (mem_properPrefixes.mpr ⟨hnil, hbefore, hneq⟩)
  · rintro ⟨keys, w, hne, hw, hnone, habove, rfl⟩
    have hnew := (mem_newNodes ha hb).mpr ⟨keys, w, hne, hw, hnone, rfl⟩
    refine ⟨⟨keys, w, hne, hw, hnone, rfl⟩, ?_⟩
    rw [hspec _ hnew keys ⟨rfl, hb.legible keys w hw⟩]
    intro m hm others hothers hmem
    obtain ⟨found, v, -, hv, hmissing, rfl⟩ := (mem_newNodes ha hb).mp hm
    have hfound : found = others :=
      (show (Node.along found v).IsAt found from ⟨rfl, hb.legible found v hv⟩).unique hothers
    subst hfound
    obtain ⟨-, hprefix, hneq⟩ := mem_properPrefixes.mp hmem
    simpa [hmissing] using habove found hprefix hneq

/-- The nodes that the flat diff adds before it looks at swaps. -/
theorem exists_addedNodes_eq (orphans : Bool) (ha : a.IsReadable) (hb : b.IsReadable) :
    ∃ added, addedNodes orphans (allNodes a) (leavesOf a) (allNodes b) (leavesOf b) = .ok added ∧
      Ascending added ∧
      ∀ n, n ∈ added ↔ ∃ keys w, keys ≠ [] ∧ b.get? keys = some w ∧
        (orphans = true → w.isInternal = false) ∧
        (∀ x, a.get? keys = some x → orphans = true ∧ x.isInternal = true) ∧
        (orphans = false → ∀ before, before <+: keys → before ≠ keys →
          (a.get? before).isSome = true) ∧
        n = Node.along keys w := by
  cases orphans with
  | true =>
    refine ⟨_, rfl, ((ascending_allNodes hb).filter _).filter _, fun n => ?_⟩
    rw [mem_newLeaves ha hb]
    simp
  | false =>
    obtain ⟨roots, hroots, hascending, hmem⟩ := exists_newRoots_eq ha hb
    refine ⟨roots, hroots, hascending, fun n => ?_⟩
    rw [hmem]
    simp [Option.eq_none_iff_forall_ne_some]

end Flat

/-! ### The checks at the end -/

theorem checkPaths_eq_ok {nodes : List Node} {seen : List String}
    (hnodes : ∀ n ∈ nodes, ∃ keys, n.IsAt keys) (h : DistinctPaths nodes)
    (hseen : ∀ n ∈ nodes, n.path ∉ seen) : checkPaths seen nodes = .ok () := by
  induction nodes generalizing seen with
  | nil => rfl
  | cons n nodes ih =>
    obtain ⟨keys, hkeys⟩ := hnodes n List.mem_cons_self
    rw [DistinctPaths, List.pairwise_cons] at h
    have hnew : seen.contains n.path = false := by
      simpa using hseen n List.mem_cons_self
    have hparse : parsePath n.path = .ok (keys.map Key.segment) := by
      rw [hkeys.1, parsePath_pathText hkeys.2]
    have htail : checkPaths (n.path :: seen) nodes = .ok () := by
      refine ih (fun m hm => hnodes m (List.mem_cons_of_mem _ hm)) h.2 fun m hm => ?_
      rw [List.mem_cons, not_or]
      exact ⟨fun heq => h.1 m hm heq.symm, hseen m (List.mem_cons_of_mem _ hm)⟩
    rw [checkPaths, hparse]
    exact (if_neg (by rw [hnew]; exact Bool.false_ne_true)).trans htail

/-! ### The diff -/

section Diff

variable {orphans : Bool} {a b : Value} {bucket : Bucket} {nodes : List Node}

theorem isLegible_of_isEdit (ha : a.IsReadable) (hb : b.IsReadable) {c : Edit}
    (h : IsEdit orphans (some a) (some b) c) : ∀ key ∈ c.keys, key.isLegible = true := by
  have hhere := h.here
  rw [readAt_some, readAt_some] at hhere
  cases hx : a.get? c.keys with
  | some x => exact ha.legible c.keys x hx
  | none =>
    cases hy : b.get? c.keys with
    | some y => exact hb.legible c.keys y hy
    | none =>
      rw [hx, hy, editHere] at hhere
      cases hhere

theorem ascending_bucketNodes (ha : a.IsReadable) (hb : b.IsReadable)
    (hshares : a.sharesContainer b = true) :
    Ascending (bucketNodes bucket (structuralEdits orphans a b)) := by
  refine ascending_sortByPath (List.pairwise_map.mp ?_)
  rw [List.map_map]
  refine List.Nodup.map_on (fun c hc d hd hpath => ?_)
    ((nodup_structuralEdits ha.named hb.named).filter _)
  rw [List.mem_filter, mem_structuralEdits_iff ha.named hb.named hshares] at hc hd
  have hkeys : c.keys = d.keys := (pathText_inj (isLegible_of_isEdit ha hb hc.1.2)
    (isLegible_of_isEdit ha hb hd.1.2)).mp hpath
  have hc' := hc.1.2.here
  rw [hkeys, hd.1.2.here, Option.some.injEq, Prod.mk.injEq] at hc'
  cases c
  cases d
  simp_all

theorem eq_bucketNodes (ha : a.IsReadable) (hb : b.IsReadable)
    (hshares : a.sharesContainer b = true) (hnodes : Ascending nodes)
    (h : ∀ n, n ∈ nodes ↔ ∃ keys w, keys ≠ [] ∧
      IsEdit orphans (some a) (some b) ⟨bucket, keys, w⟩ ∧ n = Node.along keys w) :
    nodes = bucketNodes bucket (structuralEdits orphans a b) := by
  refine ext_of_ascending hnodes (ascending_bucketNodes ha hb hshares) fun n => ?_
  rw [h, mem_bucketNodes]
  simp only [mem_structuralEdits_iff ha.named hb.named hshares, and_assoc]

theorem distinctPaths_swaps (ha : a.IsReadable) (hb : b.IsReadable) :
    DistinctPaths (replacedNodes (allNodes a) (allNodes b)).1 ∧
      DistinctPaths (replacedNodes (allNodes a) (allNodes b)).2 := by
  have hswaps : ((allNodes b).filterMap (swap? (allNodes a))).Pairwise fun s t =>
      s.1.path ≠ t.1.path ∧ s.2.path ≠ t.2.path := by
    refine (ascending_allNodes hb).distinctPaths.filterMap _ fun m m' hne s hs t ht => ?_
    have hpaths : ∀ {m : Node} {s : Node × Node}, swap? (allNodes a) m = some s →
        s.1.path = m.path ∧ s.2.path = m.path := by
      intro m s hs
      rw [swap?, Option.bind_eq_some_iff] at hs
      obtain ⟨l, hl, hs⟩ := hs
      obtain ⟨-, hs⟩ := Option.ite_none_right_eq_some.mp hs
      rw [Option.some.injEq] at hs
      subst hs
      exact ⟨((nodeAt?_eq_some_iff (ascending_allNodes ha).distinctPaths).mp hl).2, rfl⟩
    rw [(hpaths hs).1, (hpaths hs).2, (hpaths ht).1, (hpaths ht).2]
    exact ⟨hne, hne⟩
  rw [replacedNodes_eq]
  exact ⟨List.pairwise_map.mpr ((hswaps.filter _).imp fun h => h.2),
    List.pairwise_map.mpr ((hswaps.filter _).imp fun h => h.1)⟩

/-- A node outside all swaps lies at no swap. -/
theorem distinctPaths_filter_append {swapped : List Node} {p : Node → Bool}
    (hnodes : Ascending nodes) (hswapped : DistinctPaths swapped)
    (hspec : ∀ n ∈ nodes, ∀ keys, n.IsAt keys → (p n = true ↔ Unswapped a b keys))
    (hswaps : ∀ m ∈ swapped, ∃ keys x w, m.IsAt keys ∧ a.get? keys = some x ∧
      b.get? keys = some w ∧ swapsKind x w = true) :
    DistinctPaths (nodes.filter p ++ swapped) := by
  refine List.pairwise_append.mpr
    ⟨(hnodes.filter p).distinctPaths, hswapped, fun n hn m hm hpath => ?_⟩
  obtain ⟨hn, hout⟩ := List.mem_filter.mp hn
  obtain ⟨keys, x, w, hat, hx, hw, hswap⟩ := hswaps m hm
  rw [hspec n hn keys ⟨hpath.trans hat.1, hat.2⟩] at hout
  rw [hout.2 x w hx hw] at hswap
  cases hswap

/-- What the flat diff adds is what the structural diff adds. -/
theorem outside_addedNodes (ha : a.IsReadable) (hb : b.IsReadable)
    (hshares : a.sharesContainer b = true) {added : List Node}
    (hadded : addedNodes orphans (allNodes a) (leavesOf a) (allNodes b) (leavesOf b) = .ok added) :
    outside added ((replacedNodes (allNodes a) (allNodes b)).1 ++
      (replacedNodes (allNodes a) (allNodes b)).2) =
      .ok (bucketNodes .add (structuralEdits orphans a b)) := by
  obtain ⟨_, hadded', hascending, hmem⟩ := exists_addedNodes_eq orphans ha hb
  obtain rfl := Except.ok.inj (hadded.symm.trans hadded')
  obtain ⟨p, hp, hspec⟩ := exists_outside_swaps ha hb hshares fun n hn => by
    obtain ⟨keys, w, -, hw, -, -, -, rfl⟩ := (hmem n).mp hn
    exact ⟨keys, rfl, hb.legible keys w hw⟩
  rw [hp]
  refine congrArg Except.ok (eq_bucketNodes ha hb hshares (hascending.filter p) fun n => ?_)
  rw [List.mem_filter, hmem]
  constructor
  · rintro ⟨⟨keys, w, hne, hw, hleaf, hx, habove, rfl⟩, hout⟩
    rw [hspec _ ((hmem _).mpr ⟨keys, w, hne, hw, hleaf, hx, habove, rfl⟩) keys
      ⟨rfl, hb.legible keys w hw⟩] at hout
    refine ⟨keys, w, hne, isEdit_add_iff.mpr ⟨hw, hleaf, fun x hget => ?_, hout.1, habove⟩, rfl⟩
    exact ⟨(hx x hget).1, (hx x hget).2, hout.2 x w hget hw⟩
  · rintro ⟨keys, w, hne, hedit, rfl⟩
    obtain ⟨hw, hleaf, hx, hunswapped, habove⟩ := isEdit_add_iff.mp hedit
    have hin := (hmem _).mpr ⟨keys, w, hne, hw, hleaf,
      fun x hget => ⟨(hx x hget).1, (hx x hget).2.1⟩, habove, rfl⟩
    refine ⟨(hmem _).mp hin, (hspec _ hin keys ⟨rfl, hb.legible keys w hw⟩).mpr
      ⟨hunswapped, fun x y hget hy => ?_⟩⟩
    rw [hw, Option.some.injEq] at hy
    exact hy ▸ (hx x hget).2.2

/-- What the flat diff sets is what the structural diff sets. -/
theorem outside_updatedNodes (orphans : Bool) (ha : a.IsReadable) (hb : b.IsReadable)
    (hshares : a.sharesContainer b = true) :
    ∃ updated, outside (updatedNodes (leavesOf a) (leavesOf b))
        ((replacedNodes (allNodes a) (allNodes b)).1 ++
          (replacedNodes (allNodes a) (allNodes b)).2) = .ok updated ∧
      sortByPath (updated ++ (replacedNodes (allNodes a) (allNodes b)).1) =
        bucketNodes .set (structuralEdits orphans a b) := by
  have hmem : ∀ n, n ∈ updatedNodes (leavesOf a) (leavesOf b) ↔ _ :=
    fun n => mem_updatedNodes ha hb
  obtain ⟨p, hp, hspec⟩ := exists_outside_swaps ha hb hshares fun n hn => by
    obtain ⟨keys, x, w, -, -, hw, -, -, -, -, rfl⟩ := (hmem n).mp hn
    exact ⟨keys, rfl, hb.legible keys w hw⟩
  have hupdated : Ascending (updatedNodes (leavesOf a) (leavesOf b)) :=
    ((ascending_allNodes hb).filter _).filter _
  refine ⟨_, hp, eq_bucketNodes ha hb hshares (ascending_sortByPath ?_) fun n => ?_⟩
  · refine distinctPaths_filter_append hupdated (distinctPaths_swaps ha hb).1 hspec fun m hm => ?_
    obtain ⟨keys, x, w, -, hx, hw, hswaps, -, rfl⟩ := (mem_replacedNodes_fst ha hb).mp hm
    exact ⟨keys, x, w, ⟨rfl, hb.legible keys w hw⟩, hx, hw, hswaps⟩
  · rw [mem_sortByPath, List.mem_append, List.mem_filter, hmem,
      mem_replacedNodes_fst ha hb]
    constructor
    · rintro (⟨⟨keys, x, w, hne, hx, hw, hxleaf, hleaf, hdeletes, hdiffers, rfl⟩, -⟩ |
        ⟨keys, x, w, hne, hx, hw, hswaps, hdeletes, rfl⟩)
      · exact ⟨keys, w, hne, isEdit_set_iff.mpr
          ⟨x, hx, hw, hdeletes, .inr ⟨hxleaf, hleaf, hdiffers⟩⟩, rfl⟩
      · exact ⟨keys, w, hne, isEdit_set_iff.mpr ⟨x, hx, hw, hdeletes, .inl hswaps⟩, rfl⟩
    · rintro ⟨keys, w, hne, hedit, rfl⟩
      obtain ⟨x, hx, hw, hdeletes, hswaps | ⟨hxleaf, hleaf, hdiffers⟩⟩ := isEdit_set_iff.mp hedit
      · exact .inr ⟨keys, x, w, hne, hx, hw, hswaps, hdeletes, rfl⟩
      · have hin := (hmem _).mpr ⟨keys, x, w, hne, hx, hw, hxleaf, hleaf, hdeletes, hdiffers, rfl⟩
        refine .inl ⟨(hmem _).mp hin, (hspec _ hin keys ⟨rfl, hb.legible keys w hw⟩).mpr
          ⟨unswappedAbove_of_get? hx hw, fun x' y hx' hy => ?_⟩⟩
        rw [hx, Option.some.injEq] at hx'
        rw [hw, Option.some.injEq] at hy
        exact swapsKind_of_not_isInternal (hx' ▸ hxleaf) (hy ▸ hleaf)

/-- What the flat diff deletes is what the structural diff deletes. -/
theorem outside_removedNodes (orphans : Bool) (ha : a.IsReadable) (hb : b.IsReadable)
    (hshares : a.sharesContainer b = true) :
    ∃ removed, outside (removedNodes (leavesOf a) (allNodes b))
        ((replacedNodes (allNodes a) (allNodes b)).1 ++
          (replacedNodes (allNodes a) (allNodes b)).2) = .ok removed ∧
      sortByPath (removed ++ (replacedNodes (allNodes a) (allNodes b)).2) =
        bucketNodes .delete (structuralEdits orphans a b) := by
  have hmem : ∀ n, n ∈ removedNodes (leavesOf a) (allNodes b) ↔ _ :=
    fun n => mem_removedNodes ha hb
  obtain ⟨p, hp, hspec⟩ := exists_outside_swaps ha hb hshares fun n hn => by
    obtain ⟨keys, w, -, hw, -, -, rfl⟩ := (hmem n).mp hn
    exact ⟨keys, rfl, ha.legible keys w hw⟩
  have hremoved : Ascending (removedNodes (leavesOf a) (allNodes b)) :=
    ((ascending_allNodes ha).filter _).filter _
  refine ⟨_, hp, eq_bucketNodes ha hb hshares (ascending_sortByPath ?_) fun n => ?_⟩
  · refine distinctPaths_filter_append hremoved (distinctPaths_swaps ha hb).2 hspec fun m hm => ?_
    obtain ⟨keys, x, w, -, hx, hw, hswaps, -, rfl⟩ := (mem_replacedNodes_snd ha hb).mp hm
    exact ⟨keys, x, w, ⟨rfl, ha.legible keys x hx⟩, hx, hw, hswaps⟩
  · rw [mem_sortByPath, List.mem_append, List.mem_filter, hmem,
      mem_replacedNodes_snd ha hb]
    constructor
    · rintro (⟨⟨keys, w, hne, hw, hleaf, hdeletes, rfl⟩, hout⟩ |
        ⟨keys, x, w, hne, hx, hw, hswaps, hdeletes, rfl⟩)
      · rw [hspec _ ((hmem _).mpr ⟨keys, w, hne, hw, hleaf, hdeletes, rfl⟩) keys
          ⟨rfl, ha.legible keys w hw⟩] at hout
        exact ⟨keys, w, hne, isEdit_delete_iff.mpr ⟨hw, fun _ => hleaf, hdeletes, hout.1⟩, rfl⟩
      · refine ⟨keys, x, hne, isEdit_delete_iff.mpr
          ⟨hx, fun hnone => ?_, fun y hy => ?_, unswappedAbove_of_get? hx hw⟩, rfl⟩
        · rw [hw] at hnone
          cases hnone
        · rw [hw, Option.some.injEq] at hy
          exact hy ▸ hdeletes
    · rintro ⟨keys, w, hne, hedit, rfl⟩
      obtain ⟨hw, hnone, hdeletes, hunswapped⟩ := isEdit_delete_iff.mp hedit
      cases hleaf : w.isInternal with
      | false =>
        have hin := (hmem _).mpr ⟨keys, w, hne, hw, hleaf, hdeletes, rfl⟩
        refine .inl ⟨(hmem _).mp hin, (hspec _ hin keys ⟨rfl, ha.legible keys w hw⟩).mpr
          ⟨hunswapped, fun x y hx hy => ?_⟩⟩
        rw [hw, Option.some.injEq] at hx
        rw [← hx, swapsKind_of_deletes (hdeletes y hy), hleaf]
      | true =>
        -- A filled container is deleted only in favour of something else.
        cases hy : b.get? keys with
        | none =>
          rw [hnone hy] at hleaf
          cases hleaf
        | some y =>
          refine .inr ⟨keys, w, y, hne, hw, hy, ?_, hdeletes y hy, rfl⟩
          rw [swapsKind_of_deletes (hdeletes y hy), hleaf]

theorem structuralDiff_check (orphans : Bool) (ha : a.IsReadable) (hb : b.IsReadable)
    (hshares : a.sharesContainer b = true) : (structuralDiff orphans a b).check = .ok () := by
  have hbucket : ∀ bucket, checkPaths [] (bucketNodes bucket (structuralEdits orphans a b)) =
      .ok () := by
    intro bucket
    refine checkPaths_eq_ok (fun n hn => ?_)
      (ascending_bucketNodes ha hb hshares).distinctPaths (by simp)
    obtain ⟨keys, w, hedit, rfl⟩ := mem_bucketNodes.mp hn
    rw [mem_structuralEdits_iff ha.named hb.named hshares] at hedit
    exact ⟨keys, rfl, isLegible_of_isEdit ha hb hedit.2⟩
  rw [Diff.check, structuralDiff, hbucket, hbucket, hbucket]
  rfl

theorem orEmpty_eq_of_sharesContainer (h : a.sharesContainer b = true) :
    orEmpty a = a ∧ orEmpty b = b := by
  cases a <;> cases b <;> simp_all [Value.sharesContainer, orEmpty]

theorem diff_eq_of_checkComparable (ha : a.IsReadable) (hb : b.IsReadable)
    (hshares : a.sharesContainer b = true)
    (hcheck : checkComparable (leavesOf a) (leavesOf b) = .ok ()) :
    diff a b orphans = .ok (structuralDiff orphans a b) := by
  obtain ⟨hbase, hmodified⟩ := orEmpty_eq_of_sharesContainer hshares
  obtain ⟨added, hadded, -, -⟩ := exists_addedNodes_eq orphans ha hb
  obtain ⟨updated, hupdated, hset⟩ := outside_updatedNodes orphans ha hb hshares
  obtain ⟨removed, hremoved, hdelete⟩ := outside_removedNodes orphans ha hb hshares
  have hchecked := structuralDiff_check orphans ha hb hshares
  rw [diff, hbase, hmodified, leafNodes_allNodes ha, leafNodes_allNodes hb]
  simp only [bind, Except.bind, hadded, hcheck, hupdated, hremoved, hset, hdelete,
    outside_addedNodes ha hb hshares hadded]
  rw [structuralDiff] at hchecked
  simp only [hchecked]
  rfl

theorem isSignaling_of_isNonNan {x : Value} (hx : x.isNonNan = true) {d : Decimal}
    (hd : x.toDecimal? = some d) : d.isSignaling = false := by
  cases x <;> simp only [Value.toDecimal?, Option.some.injEq, reduceCtorEq] at hd <;> subst hd
  case bool b => rfl
  case int n => rfl
  case float f =>
    cases f with
    | nan => cases hx
    | infinite negative => rfl
    | finite negative mantissa exponent =>
      rw [Binary64.toDecimal]
      split <;> rfl
  case decimal d => cases d <;> first | rfl | cases hx

theorem needsSignaling_of_isNonNan {x w : Value} (hx : x.isNonNan = true)
    (hw : w.isNonNan = true) (hleaf : x.isInternal = false) : x.needsSignaling w = false := by
  have hnumbers : x.signalsNumerically w = false := by
    rw [Value.signalsNumerically]
    cases hdx : x.toDecimal? with
    | none => rfl
    | some d =>
      cases hdw : w.toDecimal? with
      | none => rfl
      | some e => simp [isSignaling_of_isNonNan hx hdx, isSignaling_of_isNonNan hw hdw]
  have hsignals : x.signals w = false := by
    cases x <;> cases w <;>
      simp_all [Value.signals, Value.isInternal, Value.signalsList, Value.signalsMembers]
  rw [Value.needsSignaling, hsignals, Bool.and_false]

theorem checkComparable_eq_ok (ha : a.IsReadable) (hb : b.IsReadable)
    (hna : a.everywhere Value.isNonNan = true) (hnb : b.everywhere Value.isNonNan = true) :
    checkComparable (leavesOf a) (leavesOf b) = .ok () := by
  have hrefused : ∀ m ∈ leavesOf b,
      (counterpart? (leavesOf a) m).any (fun l => l.value.needsSignaling m.value) = false := by
    intro m hm
    obtain ⟨keys, w, hne, hw, -, rfl⟩ := (mem_leavesOf hb.named).mp hm
    rw [counterpart?_leavesOf ha hne (hb.legible keys w hw), Option.any_map, Option.any_eq_false]
    intro x hx
    simp only [Option.filter_eq_some_iff, Bool.and_eq_true, Bool.not_eq_true'] at hx
    exact needsSignaling_of_isNonNan
      (Value.test_of_everywhere (Value.everywhere_of_get? hna hx.1))
      (Value.test_of_everywhere (Value.everywhere_of_get? hnb hw)) hx.2.1
  rw [checkComparable]
  simp only [List.any_eq_true]
  exact if_neg fun ⟨m, hm, hrefuses⟩ => by
    rw [hrefused m hm] at hrefuses
    cases hrefuses

/-- Two documents that can be compared at all have the structural diff. -/
theorem eq_structuralDiff_of_diff (ha : a.everywhere Value.hasNames = true)
    (hb : b.everywhere Value.hasNames = true) (hshares : a.sharesContainer b = true) {d : Diff}
    (h : diff a b orphans = .ok d) :
    a.IsReadable ∧ b.IsReadable ∧ d = structuralDiff orphans a b := by
  obtain ⟨hbase, hmodified⟩ := orEmpty_eq_of_sharesContainer hshares
  have hdiff := h
  rw [diff, hbase, hmodified] at h
  cases hleavesA : leafNodes (allNodes a) with
  | error error => rw [hleavesA] at h; cases h
  | ok leavesA =>
    cases hleavesB : leafNodes (allNodes b) with
    | error error => rw [hleavesA, hleavesB] at h; cases h
    | ok leavesB =>
      have ha : a.IsReadable := ⟨ha, isLegible_of_leafNodes ha hleavesA⟩
      have hb : b.IsReadable := ⟨hb, isLegible_of_leafNodes hb hleavesB⟩
      obtain ⟨added, hadded, -, -⟩ := exists_addedNodes_eq orphans ha hb
      rw [leafNodes_allNodes ha, leafNodes_allNodes hb] at h
      simp only [bind, Except.bind, hadded] at h
      cases hcheck : checkComparable (leavesOf a) (leavesOf b) with
      | error error => rw [hcheck] at h; cases h
      | ok _ =>
        rw [diff_eq_of_checkComparable ha hb hshares hcheck] at hdiff
        exact ⟨ha, hb, (Except.ok.inj hdiff).symm⟩

end Diff

theorem sharesContainer_of_isDocument {a b : Value} (ha : a.IsDocument) (hb : b.IsDocument) :
    a.sharesContainer b = true := by
  obtain ⟨members, rfl⟩ := ha.exists_eq_map
  obtain ⟨others, rfl⟩ := hb.exists_eq_map
  rfl

theorem diff_eq_ok (orphans : Bool) {a b : Value} (ha : a.IsDocument) (hb : b.IsDocument)
    (hnames : a.everywhere Value.hasLegibleNames = true)
    (hothers : b.everywhere Value.hasLegibleNames = true)
    (hna : a.everywhere Value.isNonNan = true) (hnb : b.everywhere Value.isNonNan = true) :
    diff a b orphans = .ok (structuralDiff orphans a b) :=
  diff_eq_of_checkComparable (ha.isReadable hnames) (hb.isReadable hothers)
    (sharesContainer_of_isDocument ha hb)
    (checkComparable_eq_ok (ha.isReadable hnames) (hb.isReadable hothers) hna hnb)

/-- A document with a diff to every other one: it has legible names and no NaN. -/
structure Value.IsDiffable (v : Value) : Prop where
  document : v.IsDocument
  legible : v.everywhere hasLegibleNames = true
  nonNan : v.everywhere isNonNan = true

section Regrouped

variable {orphans : Bool} {before after : Value} {edits : List Edit} {c : Edit}

/-- At most one edit, that is no deletion, needs no sorting. -/
theorem bucketNodes_of_length_le_one (hone : edits.length ≤ 1)
    (hwrites : ∀ c ∈ edits, c.bucket ≠ .delete) :
    bucketNodes .add edits ++ bucketNodes .set edits = edits.map Edit.node ∧
      bucketNodes .delete edits = [] := by
  have hnil : sortByPath [] = [] := List.mergeSort_nil
  have hsingle : ∀ n, sortByPath [n] = [n] := fun n => List.mergeSort_singleton n
  obtain rfl | ⟨c, rfl⟩ : edits = [] ∨ ∃ c, edits = [c] := by
    rwa [Nat.le_one_iff_eq_zero_or_eq_one, List.length_eq_zero_iff, List.length_eq_one_iff] at hone
  · refine ⟨?_, hnil⟩
    show sortByPath [] ++ sortByPath [] = []
    rw [hnil, List.append_nil]
  · obtain ⟨bucket, keys, v⟩ := c
    cases bucket with
    | add =>
      refine ⟨?_, hnil⟩
      show sortByPath [Node.along keys v] ++ sortByPath [] = [Node.along keys v]
      rw [hsingle, hnil, List.append_nil]
    | set =>
      refine ⟨?_, hnil⟩
      show sortByPath [] ++ sortByPath [Node.along keys v] = [Node.along keys v]
      rw [hsingle, hnil, List.nil_append]
    | delete => exact absurd rfl (hwrites _ List.mem_cons_self)

/-- Two documents with at most one edit between them, that is no deletion, are regrouped as at most
    one assignment. -/
theorem partition_of_length_le_one (hbefore : before.IsDiffable) (hafter : after.IsDiffable)
    (hedits : structuralEdits orphans before after = edits) (hone : edits.length ≤ 1)
    (hwrites : ∀ c ∈ edits, c.bucket ≠ .delete) :
    partition before after orphans false = .ok ⟨edits.map Edit.node, [], []⟩ := by
  obtain ⟨hset, hdelete⟩ := bucketNodes_of_length_le_one hone hwrites
  rw [partition, diff_eq_ok orphans hbefore.document hafter.document hbefore.legible hafter.legible
    hbefore.nonNan hafter.nonNan, structuralDiff, hedits]
  show Except.ok
    (⟨bucketNodes .add edits ++ bucketNodes .set edits, bucketNodes .delete edits, []⟩ :
      Partition) = _
  rw [hset, hdelete]

/-- Two documents with one edit between them, that is no deletion, are regrouped as one
    assignment. -/
theorem partition_of_edit (hbefore : before.IsDiffable) (hafter : after.IsDiffable)
    (hedits : structuralEdits orphans before after = [c]) (hwrites : c.bucket ≠ .delete) :
    partition before after orphans false = .ok ⟨[c.node], [], []⟩ :=
  partition_of_length_le_one hbefore hafter hedits (Nat.le_refl 1)
    fun _ hd => List.mem_singleton.mp hd ▸ hwrites

end Regrouped

/-- The diff of two documents without NaN, in whose names no line feed is overlooked, is the
    structural diff, and its buckets ascend by path. -/
theorem diff_eq_structuralDiff (orphans : Bool) {a b : Value} (ha : a.IsDocument)
    (hb : b.IsDocument) (hnames : a.everywhere Value.hasLegibleNames = true)
    (hothers : b.everywhere Value.hasLegibleNames = true)
    (hna : a.everywhere Value.isNonNan = true) (hnb : b.everywhere Value.isNonNan = true) :
    diff a b orphans = .ok (structuralDiff orphans a b) ∧
      Ascending (structuralDiff orphans a b).add ∧ Ascending (structuralDiff orphans a b).set ∧
      Ascending (structuralDiff orphans a b).delete := by
  have hascending : ∀ bucket, Ascending (bucketNodes bucket (structuralEdits orphans a b)) :=
    fun bucket => ascending_bucketNodes (ha.isReadable hnames) (hb.isReadable hothers)
      (sharesContainer_of_isDocument ha hb)
  exact ⟨diff_eq_ok orphans ha hb hnames hothers hna hnb, hascending .add, hascending .set,
    hascending .delete⟩

/-- With `orphans`, a map that is emptied is added, and its members are deleted. -/
theorem diff_of_emptied_member :
    diff (.ofNamed [("p", .ofNamed [("x", .int 1)])]) (.ofNamed [("p", .emptyMap)]) true =
      .ok ⟨[⟨"$.p", .emptyMap⟩], [], [⟨"$.p.x", .int 1⟩]⟩ := by
  have hbase : (Value.ofNamed [("p", .ofNamed [("x", .int 1)])]).IsDocument :=
    ⟨rfl, by decide, by decide⟩
  have hmodified : (Value.ofNamed [("p", .emptyMap)]).IsDocument := ⟨rfl, by decide, by decide⟩
  have hedits : structuralEdits true (.ofNamed [("p", .ofNamed [("x", .int 1)])])
      (.ofNamed [("p", .emptyMap)]) =
      [⟨.delete, [.name "p", .name "x"], .int 1⟩, ⟨.add, [.name "p"], .emptyMap⟩] := by decide
  have hbucket : ∀ n : Node, sortByPath [n] = [n] := fun n => List.mergeSort_singleton n
  rw [(diff_eq_structuralDiff true hbase hmodified (by decide) (by decide) (by decide)
    (by decide)).1, structuralDiff, hedits]
  show Except.ok (⟨sortByPath [⟨"$.p", .emptyMap⟩], sortByPath [],
    sortByPath [⟨"$.p.x", .int 1⟩]⟩ : Diff) = _
  rw [hbucket, hbucket, sortByPath, List.mergeSort_nil]

end ItemDelta
