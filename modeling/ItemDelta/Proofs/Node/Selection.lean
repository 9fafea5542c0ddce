import ItemDelta.Proofs.Node.Flattening

/-!
# Leaves and roots

The leaves of a list of nodes are those of its nodes that no other node lies below, and the roots
those that lie below no other node, where one node lies below another if its keys go on behind the
keys of that one. Of the nodes of a document, the leaves are those that hold no filled container.

## Main definitions

* `Node.IsAt` — a node lies at the end of a list of keys that its path gives back.
* `leavesOf` — the nodes of a document that hold no filled container.

## Main results

* `exists_leafNodes_eq_filter`, `exists_rootNodes_eq_filter` — the two selections.
* `leafNodes_allNodes` — the leaves of a document hold no filled container.
* `isLegible_of_leafNodes` — leaves can be found only if all paths of a document can be read back.
* `nodeAt?_allNodes` — looking up a path among the nodes is reading along its keys.
-/

namespace ItemDelta

section Except

variable {ε α β : Type} {xs : List α}

theorem mapM_eq_ok {f : α → Except ε β} {g : α → β} (h : ∀ x ∈ xs, f x = .ok (g x)) :
    xs.mapM f = .ok (xs.map g) := by
  induction xs with
  | nil => rfl
  | cons x xs ih =>
    rw [List.mapM_cons, h x (by simp), ih fun y hy => h y (by simp [hy])]
    rfl

/-- Going through a list succeeds with the results for its elements. -/
theorem mapM_eq_ok_iff {f : α → Except ε β} {ys : List β} :
    xs.mapM f = .ok ys ↔ List.Forall₂ (fun x y => f x = .ok y) xs ys := by
  constructor
  · intro h
    induction xs generalizing ys with
    | nil =>
      cases h
      exact .nil
    | cons x xs ih =>
      rw [List.mapM_cons] at h
      cases hx : f x with
      | error error => rw [hx] at h; cases h
      | ok y =>
        cases hxs : xs.mapM f with
        | error error => rw [hx, hxs] at h; cases h
        | ok rest =>
          rw [hx, hxs] at h
          cases h
          exact .cons hx (ih hxs)
  · intro h
    induction h with
    | nil => rfl
    | cons hx _ ih =>
      rw [List.mapM_cons, hx, ih]
      rfl

theorem exists_ok_of_mapM {f : α → Except ε β} {ys : List β} (h : xs.mapM f = .ok ys) :
    ∀ x ∈ xs, ∃ y, f x = .ok y := by
  have hall := mapM_eq_ok_iff.mp h
  intro x hx
  obtain ⟨i, hi, rfl⟩ := List.getElem_of_mem hx
  exact ⟨_, hall.get hi (hall.length_eq ▸ hi)⟩

theorem exists_mapM_eq_ok {f : α → Except ε β} (h : ∀ x ∈ xs, ∃ y, f x = .ok y) :
    ∃ ys, xs.mapM f = .ok ys := by
  induction xs with
  | nil => exact ⟨[], rfl⟩
  | cons x xs ih =>
    rw [List.forall_mem_cons] at h
    obtain ⟨⟨y, hy⟩, h⟩ := h
    obtain ⟨ys, hys⟩ := ih h
    exact ⟨y :: ys, by rw [List.mapM_cons, hy, hys]; rfl⟩

theorem filterM_eq_ok {f : α → Except ε Bool} {p : α → Bool} (h : ∀ x ∈ xs, f x = .ok (p x)) :
    xs.filterM f = .ok (xs.filter p) := by
  have hreverse : ∀ (ys acc : List α), (∀ x ∈ ys, f x = .ok (p x)) →
      ys.filterAuxM f acc = .ok ((ys.filter p).reverse ++ acc) := by
    intro ys
    induction ys with
    | nil => exact fun acc _ => rfl
    | cons x ys ih =>
      intro acc hys
      have htail := ih (cond (p x) (x :: acc) acc) fun y hy => hys y (by simp [hy])
      rw [List.filterAuxM, hys x (by simp)]
      refine htail.trans ?_
      cases hp : p x <;> simp [hp]
  rw [List.filterM, hreverse xs [] h]
  simp

end Except

/-- A node lies at the end of a list of keys that can be read back from its path. -/
def Node.IsAt (n : Node) (keys : List Key) : Prop :=
  n.path = pathText keys ∧ ∀ key ∈ keys, key.isLegible = true

theorem Node.IsAt.unique {n : Node} {keys others : List Key} (h : n.IsAt keys)
    (h' : n.IsAt others) : keys = others :=
  (pathText_inj h.2 h'.2).mp (h.1.symm.trans h'.1)

/-- The paths of the ancestors of a node, if its path can be read. -/
def Node.ancestors (n : Node) : List String := (ancestorPaths n.path).toOption.getD []

theorem Node.IsAt.ancestors_eq {n : Node} {keys : List Key} (h : n.IsAt keys) :
    n.ancestors = (properPrefixes keys).map pathText := by
  rw [Node.ancestors, h.1, ancestorPaths_pathText h.2]
  rfl

theorem Node.IsAt.ancestorPaths {n : Node} {keys : List Key} (h : n.IsAt keys) :
    ancestorPaths n.path = .ok n.ancestors := by
  rw [h.ancestors_eq, h.1, ancestorPaths_pathText h.2]

theorem Node.IsAt.mem_ancestors_iff {n m : Node} {keys others : List Key} (hn : n.IsAt keys)
    (hm : m.IsAt others) :
    n.path ∈ m.ancestors ↔ keys ∈ properPrefixes others := by
  rw [hm.ancestors_eq, List.mem_map, hn.1]
  constructor
  · rintro ⟨found, hfound, heq⟩
    have hlegible : ∀ key ∈ found, key.isLegible = true := fun key hkey =>
      hm.2 key ((mem_properPrefixes.mp hfound).2.1.subset hkey)
    rwa [(pathText_inj hlegible hn.2).mp heq] at hfound
  · exact fun h => ⟨keys, h, rfl⟩

section Selections

variable {nodes : List Node}

/-- The leaves of a list of nodes are the nodes whose keys are no strict beginning of the keys of
    another node. -/
theorem exists_leafNodes_eq_filter (h : ∀ n ∈ nodes, ∃ keys, n.IsAt keys) :
    ∃ p : Node → Bool, leafNodes nodes = .ok (nodes.filter p) ∧
      ∀ n ∈ nodes, ∀ keys, n.IsAt keys →
        (p n = true ↔ ∀ m ∈ nodes, ∀ others, m.IsAt others → keys ∉ properPrefixes others) := by
  refine ⟨fun n => !(nodes.map Node.ancestors).flatten.contains n.path, ?_, ?_⟩
  · rw [leafNodes, mapM_eq_ok fun m hm => (h m hm).choose_spec.ancestorPaths]
    rfl
  · intro n hn keys hkeys
    rw [Bool.not_eq_true', ← Bool.not_eq_true, List.contains_iff_mem, List.mem_flatten]
    constructor
    · intro hnot m hm others hothers hmem
      exact hnot ⟨m.ancestors, List.mem_map_of_mem hm,
        (hkeys.mem_ancestors_iff hothers).mpr hmem⟩
    · rintro hall ⟨paths, hpaths, hmem⟩
      obtain ⟨m, hm, rfl⟩ := List.mem_map.mp hpaths
      obtain ⟨others, hothers⟩ := h m hm
      exact hall m hm others hothers ((hkeys.mem_ancestors_iff hothers).mp hmem)

/-- The roots of a list of nodes are the nodes of whose keys no keys of another node are a strict
    beginning. -/
theorem exists_rootNodes_eq_filter (h : ∀ n ∈ nodes, ∃ keys, n.IsAt keys) :
    ∃ p : Node → Bool, rootNodes nodes = .ok (nodes.filter p) ∧
      ∀ n ∈ nodes, ∀ keys, n.IsAt keys →
        (p n = true ↔ ∀ m ∈ nodes, ∀ others, m.IsAt others → others ∉ properPrefixes keys) := by
  refine ⟨fun n => !n.ancestors.any (pathsOf nodes).contains, ?_, ?_⟩
  · rw [rootNodes]
    refine filterM_eq_ok fun n hn => ?_
    obtain ⟨keys, hkeys⟩ := h n hn
    rw [hkeys.ancestorPaths]
    rfl
  · intro n hn keys hkeys
    rw [Bool.not_eq_true', List.any_eq_false]
    constructor
    · intro hnot m hm others hothers hmem
      refine hnot m.path ((hothers.mem_ancestors_iff hkeys).mpr hmem) ?_
      rw [List.contains_iff_mem, pathsOf]
      exact List.mem_map_of_mem hm
    · intro hall path hpath hcontains
      rw [List.contains_iff_mem, pathsOf, List.mem_map] at hcontains
      obtain ⟨m, hm, rfl⟩ := hcontains
      obtain ⟨others, hothers⟩ := h m hm
      exact hall m hm others hothers ((hothers.mem_ancestors_iff hkeys).mp hpath)

end Selections

/-! ### Lookups -/

theorem contains_pathsOf (nodes : List Node) (path : String) :
    (pathsOf nodes).contains path = (nodeAt? nodes path).isSome := by
  rw [pathsOf, nodeAt?, Bool.eq_iff_iff, List.contains_iff_mem, List.mem_map, List.find?_isSome]
  simp

theorem nodeAt?_filter {nodes : List Node} (h : DistinctPaths nodes) (p : Node → Bool)
    (path : String) : nodeAt? (nodes.filter p) path = (nodeAt? nodes path).filter p := by
  have hfilter : DistinctPaths (nodes.filter p) := List.Pairwise.filter p h
  ext n
  rw [nodeAt?_eq_some_iff hfilter, Option.filter_eq_some_iff, nodeAt?_eq_some_iff h,
    List.mem_filter]
  tauto

/-! ### The nodes of a document -/

section Document

variable {v : Value}

theorem mem_allNodes (h : v.everywhere Value.hasNames = true) {n : Node} :
    n ∈ allNodes v ↔ ∃ keys w, keys ≠ [] ∧ v.get? keys = some w ∧ n = Node.along keys w := by
  have hroot : String.singleton rootSign = pathText [] := rfl
  rw [allNodes, mem_sortByPath, hroot, mem_nodesBelow h]
  simp only [List.nil_append]

theorem ascending_allNodes (h : v.IsReadable) : Ascending (allNodes v) := by
  have hkeys : ∀ key ∈ ([] : List Key), key.isLegible = true := by simp
  exact ascending_sortByPath (distinctPaths_nodesBelow h hkeys)

theorem isAt_of_mem_allNodes (h : v.IsReadable) {n : Node} (hn : n ∈ allNodes v) :
    ∃ keys, n.IsAt keys := by
  obtain ⟨keys, w, -, hw, rfl⟩ := (mem_allNodes h.named).mp hn
  exact ⟨keys, rfl, h.legible keys w hw⟩

/-- The leaves of a document can be found only if all its paths can be read back. -/
theorem isLegible_of_leafNodes (h : v.everywhere Value.hasNames = true) {leaves : List Node}
    (hleaves : leafNodes (allNodes v) = .ok leaves) : v.IsLegible := by
  intro keys w hw
  by_cases hne : keys = []
  · simp [hne]
  have hmem := (mem_allNodes h).mpr ⟨keys, w, hne, hw, rfl⟩
  rw [leafNodes] at hleaves
  cases hancestors : (allNodes v).mapM fun node => ancestorPaths node.path with
  | error error => rw [hancestors] at hleaves; cases hleaves
  | ok paths =>
    obtain ⟨found, hfound⟩ := exists_ok_of_mapM hancestors _ hmem
    rw [Node.along_path, ancestorPaths, pathKeys] at hfound
    cases hparse : parsePath (pathText keys) with
    | error error => rw [hparse] at hfound; cases hfound
    | ok segments => exact isLegible_of_parsePath_pathText hparse

/-- Looking up the path of keys among the nodes of a document is reading along the keys. -/
theorem nodeAt?_allNodes (h : v.IsReadable) {keys : List Key} (hne : keys ≠ [])
    (hkeys : ∀ key ∈ keys, key.isLegible = true) :
    nodeAt? (allNodes v) (pathText keys) = (v.get? keys).map (Node.along keys) := by
  cases hget : v.get? keys with
  | none =>
    rw [Option.map_none, nodeAt?_eq_none_iff]
    intro n hn heq
    obtain ⟨others, w, -, hw, rfl⟩ := (mem_allNodes h.named).mp hn
    rw [Node.along_path, pathText_inj (h.legible others w hw) hkeys] at heq
    rw [heq, hget] at hw
    cases hw
  | some w =>
    rw [Option.map_some, nodeAt?_eq_some_iff (ascending_allNodes h).distinctPaths]
    exact ⟨(mem_allNodes h.named).mpr ⟨keys, w, hne, hget, rfl⟩, rfl⟩

theorem isInternal_iff (h : v.everywhere Value.hasNames = true) :
    v.isInternal = true ↔ ∃ key w, v.child? key = some w := by
  cases v with
  | list items =>
    rw [Value.isInternal, Bool.not_eq_true', List.isEmpty_eq_false_iff]
    constructor
    · intro hne
      obtain ⟨w, rest, rfl⟩ := List.exists_cons_of_ne_nil hne
      exact ⟨.index 0, w, rfl⟩
    · rintro ⟨key, w, hw⟩ rfl
      cases key <;> simp [Value.child?] at hw
  | map members =>
    have hnames := Value.test_of_everywhere h
    rw [Value.isInternal, Bool.not_eq_true', List.isEmpty_eq_false_iff]
    constructor
    · intro hne
      obtain ⟨⟨key, w⟩, rest, rfl⟩ := List.exists_cons_of_ne_nil hne
      refine ⟨key, w, ?_⟩
      rw [Value.child?_map hnames, Members.get?_cons, if_pos rfl]
    · rintro ⟨key, w, hw⟩ rfl
      cases key <;> simp [Value.child?] at hw
  | _ => simp [Value.isInternal, Value.child?]

/-- The nodes of a document that hold no filled container. -/
def leavesOf (v : Value) : List Node := (allNodes v).filter fun n => !n.value.isInternal

theorem mem_leavesOf (h : v.everywhere Value.hasNames = true) {n : Node} :
    n ∈ leavesOf v ↔ ∃ keys w, keys ≠ [] ∧ v.get? keys = some w ∧ w.isInternal = false ∧
      n = Node.along keys w := by
  rw [leavesOf, List.mem_filter, mem_allNodes h, Bool.not_eq_true']
  constructor
  · rintro ⟨⟨keys, w, hne, hw, rfl⟩, hleaf⟩
    exact ⟨keys, w, hne, hw, hleaf, rfl⟩
  · rintro ⟨keys, w, hne, hw, hleaf, rfl⟩
    exact ⟨⟨keys, w, hne, hw, rfl⟩, hleaf⟩

theorem nodeAt?_leavesOf (h : v.IsReadable) {keys : List Key} (hne : keys ≠ [])
    (hkeys : ∀ key ∈ keys, key.isLegible = true) :
    nodeAt? (leavesOf v) (pathText keys) =
      ((v.get? keys).filter fun w => !w.isInternal).map (Node.along keys) := by
  rw [leavesOf, nodeAt?_filter (ascending_allNodes h).distinctPaths,
    nodeAt?_allNodes h hne hkeys, Option.filter_map]
  rfl

/-- The leaves of a document are the nodes that hold no filled container. -/
theorem leafNodes_allNodes (h : v.IsReadable) :
    leafNodes (allNodes v) = .ok (leavesOf v) := by
  obtain ⟨p, hp, hspec⟩ :=
    exists_leafNodes_eq_filter fun n hn => isAt_of_mem_allNodes h hn
  rw [hp]
  refine congrArg Except.ok (List.filter_congr fun n hn => ?_)
  obtain ⟨keys, w, hne, hw, rfl⟩ := (mem_allNodes h.named).mp hn
  have hat : (Node.along keys w).IsAt keys := ⟨rfl, h.legible keys w hw⟩
  rw [Bool.eq_iff_iff, hspec _ hn keys hat, Bool.not_eq_true', ← Bool.not_eq_true,
    Node.along_value, isInternal_iff (Value.everywhere_of_get? h.named hw)]
  constructor
  · rintro hall ⟨key, x, hx⟩
    have hbelow : v.get? (keys ++ [key]) = some x := by
      rw [Value.get?_append, hw, Option.bind_some, Value.get?_cons, hx, Option.bind_some,
        Value.get?_nil]
    refine hall (Node.along (keys ++ [key]) x) ((mem_allNodes h.named).mpr
      ⟨keys ++ [key], x, by simp, hbelow, rfl⟩) (keys ++ [key]) ⟨rfl, h.legible _ x hbelow⟩ ?_
    exact mem_properPrefixes.mpr ⟨hne, List.prefix_append keys [key], by simp⟩
  · rintro hnone m hm others hothers hmem
    obtain ⟨hkeys, ⟨rest, rfl⟩, hneq⟩ := mem_properPrefixes.mp hmem
    obtain ⟨found, x, -, hx, rfl⟩ := (mem_allNodes h.named).mp hm
    have hfound : found = keys ++ rest :=
      (show (Node.along found x).IsAt found from ⟨rfl, h.legible found x hx⟩).unique hothers
    rw [hfound, Value.get?_append, hw, Option.bind_some] at hx
    cases rest with
    | nil => simp at hneq
    | cons key rest =>
      rw [Value.get?_cons, Option.bind_eq_some_iff] at hx
      obtain ⟨child, hchild, -⟩ := hx
      exact hnone ⟨key, child, hchild⟩

end Document

end ItemDelta
