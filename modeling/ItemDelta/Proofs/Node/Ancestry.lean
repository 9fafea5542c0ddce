import ItemDelta.Proofs.Node.Selection
import ItemDelta.Proofs.Path.Inverse

/-!
# Nodes in the tree

The selections of a list of nodes read and print paths over and over, and paths do not sort the way
the tree branches: `$.aB` stands between `$.a` and `$.a[0]`. They follow the tree all the same. A
leaf is a node whose keys go on in no other node, a root is one whose keys go on those of no other
node, and every node has one root at or above it. Of a document, the nodes are its places, each of
them once, and the leaves are the places that hold no filled container.

## Main definitions

* `IsAbove` — a list of keys goes on in another one.
* `leavesAmong`, `rootsAmong` — the nodes of a list that none lies below or above.
* `Node.LiesAt` — a node lies at the end of a list of keys.
* `ListsPlaces` — some nodes are the places of a document, in the order of their paths.

## Main results

* `leafNodes_eq_leavesAmong`, `rootNodes_eq_rootsAmong` — the two selections.
* `existsUnique_root` — every node has one root at or above it.
* `selections_follow_tree` — both, with the nodes and the leaves of a document.
-/

namespace ItemDelta

/-- A list of keys is a strict beginning of another one. -/
def IsAbove (keys others : List Key) : Prop := keys <+: others ∧ keys ≠ others

instance (keys others : List Key) : Decidable (IsAbove keys others) :=
  inferInstanceAs (Decidable (_ ∧ _))

theorem mem_properPrefixes_iff_isAbove {keys others : List Key} (h : keys ≠ []) :
    keys ∈ properPrefixes others ↔ IsAbove keys others := by
  rw [mem_properPrefixes, IsAbove, and_iff_right h]

theorem IsAbove.length_lt {keys others : List Key} (h : IsAbove keys others) :
    keys.length < others.length :=
  Nat.lt_of_not_le fun hle => h.2 (h.1.eq_of_length_le hle)

/-- A node lies at the end of a list of keys below the root: its path is printed for them, no line
    feed is overlooked in their names, and their positions can be printed. -/
structure Node.LiesAt (n : Node) (keys : List Key) : Prop where
  ne_nil : keys ≠ []
  path_eq : n.path = pathText keys
  feedless : ∀ key ∈ keys, ¬key.EndsInFeed
  position_lt : ∀ position, .index position ∈ keys → position < firstLongInteger

theorem Node.liesAt_iff {n : Node} {keys : List Key} :
    n.LiesAt keys ↔ keys ≠ [] ∧ n.IsAt keys := by
  constructor
  · intro h
    have hpositions := fun position hposition =>
      isLegible_index_iff.mpr (h.position_lt position hposition)
    exact ⟨h.ne_nil, h.path_eq, (forall_isLegible_iff hpositions).mpr h.feedless⟩
  · rintro ⟨hne, hpath, hlegible⟩
    have hpositions := fun position hposition => hlegible (.index position) hposition
    exact ⟨hne, hpath, (forall_isLegible_iff hpositions).mp hlegible,
      fun position hposition => isLegible_index_iff.mp (hpositions position hposition)⟩

theorem Node.LiesAt.isAt {n : Node} {keys : List Key} (h : n.LiesAt keys) : n.IsAt keys :=
  (liesAt_iff.mp h).2

theorem Node.IsAt.forall_iff {n : Node} {keys : List Key} (h : n.IsAt keys)
    {p : List Key → Prop} : (∀ others, n.IsAt others → p others) ↔ p keys :=
  ⟨fun hall => hall keys h, fun hkeys _ hothers => h.unique hothers ▸ hkeys⟩

section Among

variable (keys : Node → List Key) (nodes : List Node)

/-- The nodes of a list that no other one of it lies below. -/
def leavesAmong : List Node :=
  nodes.filter fun n => ∀ m ∈ nodes, ¬IsAbove (keys n) (keys m)

/-- The nodes of a list that no other one of it lies above. -/
def rootsAmong : List Node :=
  nodes.filter fun n => ∀ m ∈ nodes, ¬IsAbove (keys m) (keys n)

end Among

section Selections

variable {keys : Node → List Key} {nodes : List Node}

theorem leafNodes_eq_leavesAmong (h : ∀ n ∈ nodes, n.LiesAt (keys n)) :
    leafNodes nodes = .ok (leavesAmong keys nodes) := by
  obtain ⟨p, hp, hspec⟩ := exists_leafNodes_eq_filter fun n hn => ⟨keys n, (h n hn).isAt⟩
  rw [hp, leavesAmong]
  refine congrArg Except.ok (List.filter_congr fun n hn => ?_)
  rw [Bool.eq_iff_iff, hspec n hn (keys n) (h n hn).isAt, decide_eq_true_eq]
  refine forall₂_congr fun m hm => ?_
  rw [(h m hm).isAt.forall_iff, mem_properPrefixes_iff_isAbove (h n hn).ne_nil]

theorem rootNodes_eq_rootsAmong (h : ∀ n ∈ nodes, n.LiesAt (keys n)) :
    rootNodes nodes = .ok (rootsAmong keys nodes) := by
  obtain ⟨p, hp, hspec⟩ := exists_rootNodes_eq_filter fun n hn => ⟨keys n, (h n hn).isAt⟩
  rw [hp, rootsAmong]
  refine congrArg Except.ok (List.filter_congr fun n hn => ?_)
  rw [Bool.eq_iff_iff, hspec n hn (keys n) (h n hn).isAt, decide_eq_true_eq]
  refine forall₂_congr fun m hm => ?_
  rw [(h m hm).isAt.forall_iff, mem_properPrefixes_iff_isAbove (h m hm).ne_nil]

theorem mem_rootsAmong {n : Node} :
    n ∈ rootsAmong keys nodes ↔ n ∈ nodes ∧ ∀ m ∈ nodes, ¬IsAbove (keys m) (keys n) := by
  rw [rootsAmong, List.mem_filter, decide_eq_true_eq]

/-- Going up from a node ends at a root. -/
theorem exists_root {n : Node} (hn : n ∈ nodes) :
    ∃ root ∈ rootsAmong keys nodes, keys root <+: keys n := by
  induction hlength : (keys n).length using Nat.strongRecOn generalizing n with
  | _ length ih =>
    by_cases hroot : ∀ m ∈ nodes, ¬IsAbove (keys m) (keys n)
    · exact ⟨n, mem_rootsAmong.mpr ⟨hn, hroot⟩, List.prefix_refl (keys n)⟩
    · obtain ⟨m, hm, habove⟩ : ∃ m ∈ nodes, IsAbove (keys m) (keys n) := by
        simpa using hroot
      obtain ⟨root, hmem, hprefix⟩ := ih (keys m).length (hlength ▸ habove.length_lt) hm rfl
      exact ⟨root, hmem, hprefix.trans habove.1⟩

/-- Two roots at or above one place lie at the same place. -/
theorem eq_of_roots {root other : Node} {place : List Key} (hroot : root ∈ rootsAmong keys nodes)
    (hother : other ∈ rootsAmong keys nodes) (habove : keys root <+: place)
    (habove' : keys other <+: place) : keys root = keys other := by
  rw [mem_rootsAmong] at hroot hother
  rcases List.prefix_or_prefix_of_prefix habove habove' with h | h
  · exact Decidable.not_not.mp fun hne => hother.2 root hroot.1 ⟨h, hne⟩
  · exact Decidable.not_not.mp fun hne => hroot.2 other hother.1 ⟨h, Ne.symm hne⟩

theorem existsUnique_root (h : ∀ n ∈ nodes, n.LiesAt (keys n)) {n : Node} (hn : n ∈ nodes) :
    ∃! path, ∃ root ∈ rootsAmong keys nodes, root.path = path ∧ keys root <+: keys n := by
  obtain ⟨root, hroot, habove⟩ : ∃ root ∈ rootsAmong keys nodes, keys root <+: keys n :=
    exists_root hn
  refine ⟨root.path, ⟨root, hroot, rfl, habove⟩, ?_⟩
  rintro path ⟨other, hother, rfl, habove'⟩
  rw [(h other (mem_rootsAmong.mp hother).1).path_eq, (h root (mem_rootsAmong.mp hroot).1).path_eq,
    eq_of_roots hother hroot habove' habove]

end Selections

/-! ### The places of a document -/

/-- Some nodes are the places of a value below its root, in the order of their paths: each node is
    at a place, and each place has one node, with the value there. -/
structure ListsPlaces (v : Value) (nodes : List Node) : Prop where
  ascending : Ascending nodes
  exists_keys : ∀ n ∈ nodes, ∃ keys, keys ≠ [] ∧ n.path = pathText keys ∧
    v.get? keys = some n.value
  filter_eq : ∀ keys, keys ≠ [] → nodes.filter (fun n => n.path = pathText keys) =
    ((v.get? keys).map (Node.along keys)).toList

theorem listsPlaces_allNodes {v : Value} (h : v.IsReadable) : ListsPlaces v (allNodes v) where
  ascending := ascending_allNodes h
  exists_keys n hn := by
    obtain ⟨keys, w, hne, hw, rfl⟩ := (mem_allNodes h.named).mp hn
    exact ⟨keys, hne, rfl, hw⟩
  filter_eq keys hne := by
    refine ext_of_ascending ((ascending_allNodes h).filter _) ?_ fun n => ?_
    · cases (v.get? keys).map (Node.along keys) with
      | none => exact .nil
      | some n => exact List.pairwise_singleton _ n
    · rw [List.mem_filter, mem_allNodes h.named, decide_eq_true_eq, Option.mem_toList,
        Option.map_eq_some_iff]
      constructor
      · rintro ⟨⟨others, w, -, hw, rfl⟩, hpath⟩
        obtain rfl : others = keys := pathText_injective hpath
        exact ⟨w, hw, rfl⟩
      · rintro ⟨w, hw, rfl⟩
        exact ⟨⟨keys, w, hne, hw, rfl⟩, rfl⟩

theorem isInternal_eq_false_iff {v : Value} :
    v.isInternal = false ↔ v.isContainer = false ∨ v = .emptyList ∨ v = .emptyMap := by
  cases v <;> simp [Value.isInternal, Value.isContainer, Value.emptyList, Value.emptyMap]

/-- The leaves of a document are its scalars, nulls, sets and empty containers. -/
theorem leafNodes_allNodes_eq_filter {v : Value} (h : v.IsReadable) :
    leafNodes (allNodes v) = .ok ((allNodes v).filter fun n =>
      n.value.isContainer = false ∨ n.value = .emptyList ∨ n.value = .emptyMap) := by
  rw [leafNodes_allNodes h, leavesOf]
  refine congrArg Except.ok (List.filter_congr fun n _ => ?_)
  rw [Bool.eq_iff_iff, Bool.not_eq_true', decide_eq_true_eq, isInternal_eq_false_iff]

/-- The selections of a list of nodes follow the tree, and the nodes of a document are its places.

Whatever the order of the nodes, the leaves are those that no other one lies below, the roots those
that no other one lies above, and every node has just one root at or above it. A document with names
that can be read back has one node for every place, its nodes ascend by path, and its leaves are the
places of scalars, nulls, sets and empty containers. -/
theorem selections_follow_tree (keys : Node → List Key) (nodes : List Node) (v : Value) :
    ((∀ n ∈ nodes, n.LiesAt (keys n)) →
      leafNodes nodes = .ok (leavesAmong keys nodes) ∧
      rootNodes nodes = .ok (rootsAmong keys nodes) ∧
      ∀ n ∈ nodes, ∃! path, ∃ root ∈ rootsAmong keys nodes,
        root.path = path ∧ keys root <+: keys n) ∧
    (v.IsDocument → v.everywhere Value.hasLegibleNames = true →
      ListsPlaces v (allNodes v) ∧
      leafNodes (allNodes v) = .ok ((allNodes v).filter fun n =>
        n.value.isContainer = false ∨ n.value = .emptyList ∨ n.value = .emptyMap)) := by
  refine ⟨fun h => ?_, fun h hnames => ?_⟩
  · exact ⟨leafNodes_eq_leavesAmong h, rootNodes_eq_rootsAmong h,
      fun n hn => existsUnique_root h hn⟩
  · have hreadable := h.isReadable hnames
    exact ⟨listsPlaces_allNodes hreadable, leafNodes_allNodes_eq_filter hreadable⟩

/-- `$.aB` is no part of `$.a`, though it sorts in front of `$.a[0]`. -/
theorem selections_follow_tree_of_like_names :
    leafNodes [⟨"$.a[0]", .null⟩, ⟨"$.aB", .emptyMap⟩, ⟨"$.a", .list [.null]⟩] =
        .ok [⟨"$.a[0]", .null⟩, ⟨"$.aB", .emptyMap⟩] ∧
      rootNodes [⟨"$.a[0]", .null⟩, ⟨"$.aB", .emptyMap⟩, ⟨"$.a", .list [.null]⟩] =
        .ok [⟨"$.aB", .emptyMap⟩, ⟨"$.a", .list [.null]⟩] ∧
      leafNodes (allNodes (.ofNamed [("aB", .emptyMap), ("a", .list [.null])])) =
        .ok [⟨"$.aB", .emptyMap⟩, ⟨"$.a[0]", .null⟩] := by
  let keys : Node → List Key := fun n =>
    if n.path = "$.a[0]" then [.name "a", .index 0]
    else if n.path = "$.aB" then [.name "aB"] else [.name "a"]
  have hkeys : ∀ n ∈ [(⟨"$.a[0]", .null⟩ : Node), ⟨"$.aB", .emptyMap⟩, ⟨"$.a", .list [.null]⟩],
      n.LiesAt (keys n) := by
    intro n hn
    rw [Node.liesAt_iff, Node.IsAt]
    revert n
    decide
  have hdocument : (Value.ofNamed [("aB", .emptyMap), ("a", .list [.null])]).IsDocument :=
    ⟨rfl, by decide, by decide⟩
  have hall : allNodes (.ofNamed [("aB", .emptyMap), ("a", .list [.null])]) =
      [⟨"$.a", .list [.null]⟩, ⟨"$.aB", .emptyMap⟩, ⟨"$.a[0]", .null⟩] := by
    refine ext_of_ascending (ascending_allNodes (hdocument.isReadable (by decide)))
      (by unfold Ascending; decide) fun n => ?_
    have hbelow : nodesBelow "$" (.ofNamed [("aB", .emptyMap), ("a", .list [.null])]) =
        [⟨"$.aB", .emptyMap⟩, ⟨"$.a", .list [.null]⟩, ⟨"$.a[0]", .null⟩] := by decide
    show n ∈ sortByPath (nodesBelow "$" _) ↔ _
    rw [mem_sortByPath, hbelow]
    exact (List.Perm.swap ..).mem_iff
  obtain ⟨hlist, hleaves⟩ := selections_follow_tree keys
    [⟨"$.a[0]", .null⟩, ⟨"$.aB", .emptyMap⟩, ⟨"$.a", .list [.null]⟩]
    (.ofNamed [("aB", .emptyMap), ("a", .list [.null])])
  refine ⟨(hlist hkeys).1.trans ?_, (hlist hkeys).2.1.trans ?_, ?_⟩
  · exact congrArg Except.ok (by decide)
  · exact congrArg Except.ok (by decide)
  · rw [(hleaves hdocument (by decide)).2, hall]
    exact congrArg Except.ok (by decide)

end ItemDelta
