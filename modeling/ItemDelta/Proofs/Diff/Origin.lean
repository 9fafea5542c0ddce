import ItemDelta.Diff.Partition
import ItemDelta.Proofs.Diff.Application
import ItemDelta.Proofs.Diff.Buckets
import ItemDelta.Proofs.Node.Flattening

/-!
# Where the nodes of a diff come from

A diff makes up no nodes: what it adds and sets are nodes of the modified document, and what it
deletes are nodes of the base document. The path of such a node is that of the keys that lead to it.
So if no member of a document has the empty name, there is none in a path either. This holds for
maps with positions as keys too, which a path takes for names.

## Main definitions

* `IsNamed` — a path along some keys, none of which is the empty name.
* `IsPathBelow` — a path along more keys than those of some place.

## Main results

* `exists_of_diff` — how a diff is put together.
* `subset_of_partition` — the nodes of a regrouped diff are nodes of the documents.
* `exists_pathKeys_of_partition` — their paths can be read.
* `isPathBelow_of_mem_nodesBelow` — what the path of a node of a document is.
* `isNamed_of_partition`, `pathKeys_ne_of_partition` — what the paths of a regrouped diff are.
-/

namespace ItemDelta

/-! ### Selections -/

theorem subset_of_filterM {α : Type} {f : α → Except Error Bool} {xs ys : List α}
    (h : xs.filterM f = .ok ys) : ys ⊆ xs := by
  -- The filter collects what it keeps in front of what it has kept before, and reverses it.
  have hkept : ∀ (xs kept ys : List α), xs.filterAuxM f kept = .ok ys → ys ⊆ xs ++ kept := by
    intro xs
    induction xs with
    | nil =>
      rintro kept _ ⟨⟩
      exact List.Subset.refl kept
    | cons x xs ih =>
      intro kept ys h
      obtain ⟨keep, -, h⟩ := exists_of_bind_eq_ok h
      intro y hy
      have hmem := ih _ ys h hy
      rw [List.cons_append, List.mem_cons]
      cases keep with
      | true => simpa [or_left_comm] using hmem
      | false => exact .inr hmem
  obtain ⟨kept, hkept', h⟩ := exists_of_bind_eq_ok h
  cases h
  have hsubset := hkept xs [] kept hkept'
  rw [List.append_nil] at hsubset
  exact fun y hy => hsubset (List.mem_reverse.mp hy)

section Selections

variable {nodes others selected leaves : List Node}

theorem subset_of_leafNodes (h : leafNodes nodes = .ok selected) : selected ⊆ nodes := by
  obtain ⟨ancestors, -, h⟩ := exists_of_bind_eq_ok h
  cases h
  exact List.filter_subset_self nodes

theorem subset_of_rootNodes (h : rootNodes nodes = .ok selected) : selected ⊆ nodes :=
  subset_of_filterM h

theorem subset_of_outside (h : outside nodes others = .ok selected) : selected ⊆ nodes :=
  subset_of_filterM h

theorem subset_of_addedNodes {orphans : Bool} {baseNodes baseLeaves : List Node}
    (h : addedNodes orphans baseNodes baseLeaves nodes leaves = .ok selected)
    (hleaves : leaves ⊆ nodes) : selected ⊆ nodes := by
  cases orphans with
  | true =>
    cases h
    exact fun n hn => hleaves (List.mem_of_mem_filter hn)
  | false => exact fun n hn => List.mem_of_mem_filter (subset_of_rootNodes h hn)

theorem subset_of_replacedNodes :
    (replacedNodes others nodes).1 ⊆ nodes ∧ (replacedNodes others nodes).2 ⊆ others := by
  have hswap : ∀ swap ∈ nodes.filterMap (swap? others), swap.1 ∈ others ∧ swap.2 ∈ nodes := by
    intro swap hswap
    obtain ⟨m, hm, hsome⟩ := List.mem_filterMap.mp hswap
    obtain ⟨l, hl, hsome⟩ := Option.bind_eq_some_iff.mp hsome
    split at hsome
    · cases hsome
      exact ⟨List.mem_of_find?_eq_some hl, hm⟩
    · cases hsome
  rw [replacedNodes_eq]
  constructor
  · intro n hn
    obtain ⟨swap, hmem, rfl⟩ := List.mem_map.mp hn
    exact (hswap swap (List.mem_of_mem_filter hmem)).2
  · intro n hn
    obtain ⟨swap, hmem, rfl⟩ := List.mem_map.mp hn
    exact (hswap swap (List.mem_of_mem_filter hmem)).1

end Selections

/-! ### Diffs -/

section Diffs

variable {base modified : Value} {orphans : Bool}

/-- How a diff is put together: from selections of the nodes of both documents, outside of the paths
    where container kinds swap. Its paths have been checked. -/
theorem exists_of_diff {d : Diff} (h : diff base modified orphans = .ok d) :
    ∃ baseLeaves modifiedLeaves added roots add set delete,
      leafNodes (allNodes (orEmpty base)) = .ok baseLeaves ∧
      leafNodes (allNodes (orEmpty modified)) = .ok modifiedLeaves ∧
      addedNodes orphans (allNodes (orEmpty base)) baseLeaves (allNodes (orEmpty modified))
        modifiedLeaves = .ok added ∧
      outside added roots = .ok add ∧
      outside (updatedNodes baseLeaves modifiedLeaves) roots = .ok set ∧
      outside (removedNodes baseLeaves (allNodes (orEmpty modified))) roots = .ok delete ∧
      (let swapped := replacedNodes (allNodes (orEmpty base)) (allNodes (orEmpty modified))
      d = ⟨add, sortByPath (set ++ swapped.1), sortByPath (delete ++ swapped.2)⟩) ∧
      d.check = .ok () := by
  obtain ⟨baseLeaves, hbase, h⟩ := exists_of_bind_eq_ok h
  obtain ⟨modifiedLeaves, hmodified, h⟩ := exists_of_bind_eq_ok h
  obtain ⟨added, hadded, h⟩ := exists_of_bind_eq_ok h
  obtain ⟨_, -, h⟩ := exists_of_bind_eq_ok h
  obtain ⟨add, hadd, h⟩ := exists_of_bind_eq_ok h
  obtain ⟨set, hset, h⟩ := exists_of_bind_eq_ok h
  obtain ⟨delete, hdelete, h⟩ := exists_of_bind_eq_ok h
  obtain ⟨_, hcheck, h⟩ := exists_of_bind_eq_ok h
  cases h
  exact ⟨_, _, _, _, _, _, _, hbase, hmodified, hadded, hadd, hset, hdelete, rfl, hcheck⟩

theorem subset_of_diff {d : Diff} (h : diff base modified orphans = .ok d) :
    d.add ⊆ allNodes (orEmpty modified) ∧ d.set ⊆ allNodes (orEmpty modified) ∧
      d.delete ⊆ allNodes (orEmpty base) := by
  obtain ⟨_, _, _, _, _, _, _, hbase, hmodified, hadded, hadd, hset, hdelete, rfl, -⟩ :=
    exists_of_diff h
  have hleaves := subset_of_leafNodes hmodified
  obtain ⟨hreplaced, hremoved⟩ := @subset_of_replacedNodes (allNodes (orEmpty modified))
    (allNodes (orEmpty base))
  refine ⟨fun n hn => ?_, fun n hn => ?_, fun n hn => ?_⟩
  · exact subset_of_addedNodes hadded hleaves (subset_of_outside hadd hn)
  · rcases List.mem_append.mp (mem_sortByPath.mp hn) with hn | hn
    · exact hleaves (List.mem_of_mem_filter (subset_of_outside hset hn))
    · exact hreplaced hn
  · rcases List.mem_append.mp (mem_sortByPath.mp hn) with hn | hn
    · exact subset_of_leafNodes hbase (List.mem_of_mem_filter (subset_of_outside hdelete hn))
    · exact hremoved hn

/-- A diff is regrouped without new nodes. -/
theorem Diff.subset_of_partition {d : Diff} {supportSets : Bool} {nodes : Partition}
    (h : d.partition supportSets = .ok nodes) :
    nodes.set = d.add ++ d.set ∧ nodes.remove ⊆ d.delete ∧ nodes.delete ⊆ d.delete := by
  cases supportSets with
  | true =>
    obtain ⟨deleted, hdeleted, h⟩ := exists_of_bind_eq_ok h
    obtain ⟨removed, hremoved, h⟩ := exists_of_bind_eq_ok h
    cases h
    exact ⟨rfl, subset_of_filterM hremoved, subset_of_filterM hdeleted⟩
  | false =>
    cases h
    exact ⟨rfl, List.Subset.refl d.delete, List.nil_subset _⟩

/-- The nodes of a regrouped diff are nodes of the documents. -/
theorem subset_of_partition {supportSets : Bool} {nodes : Partition}
    (h : partition base modified orphans supportSets = .ok nodes) :
    nodes.set ⊆ allNodes (orEmpty modified) ∧ nodes.remove ⊆ allNodes (orEmpty base) ∧
      nodes.delete ⊆ allNodes (orEmpty base) := by
  obtain ⟨d, hdiff, h⟩ := exists_of_bind_eq_ok h
  obtain ⟨hadd, hset, hdelete⟩ := subset_of_diff hdiff
  obtain ⟨hassigned, hremoved, hdeleted⟩ := Diff.subset_of_partition h
  exact ⟨hassigned ▸ List.append_subset.mpr ⟨hadd, hset⟩, List.Subset.trans hremoved hdelete,
    List.Subset.trans hdeleted hdelete⟩

theorem exists_pathKeys_of_checkPaths {seen : List String} {nodes : List Node}
    (h : checkPaths seen nodes = .ok ()) :
    ∀ node ∈ nodes, ∃ keys, pathKeys node.path = .ok keys := by
  induction nodes generalizing seen with
  | nil => exact nofun
  | cons node nodes ih =>
    obtain ⟨segments, hsegments, h⟩ := exists_of_bind_eq_ok h
    split at h
    · cases h
    · refine List.forall_mem_cons.mpr ⟨⟨segments.map Segment.key, ?_⟩, ih h⟩
      rw [pathKeys, hsegments]
      rfl

/-- The paths of a regrouped diff can be read: the diff itself has checked them. -/
theorem exists_pathKeys_of_partition {supportSets : Bool} {nodes : Partition}
    (h : partition base modified orphans supportSets = .ok nodes) :
    ∀ node ∈ nodes.set ++ nodes.remove ++ nodes.delete, ∃ keys, pathKeys node.path = .ok keys := by
  obtain ⟨d, hdiff, h⟩ := exists_of_bind_eq_ok h
  obtain ⟨hset, hremove, hdelete⟩ := Diff.subset_of_partition h
  obtain ⟨_, _, _, _, _, _, _, -, -, -, -, -, -, -, hcheck⟩ := exists_of_diff hdiff
  obtain ⟨_, hadd, hcheck⟩ := exists_of_bind_eq_ok hcheck
  obtain ⟨_, hdeleted, hchanged⟩ := exists_of_bind_eq_ok hcheck
  intro node hnode
  rw [hset] at hnode
  simp only [List.mem_append, or_assoc] at hnode
  rcases hnode with hnode | hnode | hnode | hnode
  · exact exists_pathKeys_of_checkPaths hadd node hnode
  · exact exists_pathKeys_of_checkPaths hchanged node hnode
  · exact exists_pathKeys_of_checkPaths hdeleted node (hremove hnode)
  · exact exists_pathKeys_of_checkPaths hdeleted node (hdelete hnode)

end Diffs

/-! ### Names on paths -/

/-- A text is the path along some keys, one at least, none of which is the empty name. -/
def IsNamed (path : String) : Prop :=
  ∃ keys, keys ≠ [] ∧ Key.name "" ∉ keys ∧ path = pathText keys

/-- What is read from such a path. -/
theorem IsNamed.pathKeys {path : String} {keys : List Key} (h : IsNamed path)
    (hkeys : pathKeys path = .ok keys) : keys ≠ [] ∧ Key.name "" ∉ keys := by
  obtain ⟨others, hne, hnames, rfl⟩ := h
  rw [eq_of_pathKeys_pathText hkeys]
  exact ⟨hne, hnames⟩

/-- A text is the path along some keys and at least one more below them; none of these is the empty
    name if the names are filled. -/
def IsPathBelow (keys : List Key) (filled : Prop) (path : String) : Prop :=
  ∃ below, below ≠ [] ∧ (filled → Key.name "" ∉ below) ∧ path = pathText (keys ++ below)

/-- A step to a member is one along a name, which is not empty if the key is not the empty name. -/
theorem exists_name_memberText (key : Key) :
    ∃ name, key.memberText = String.ofList (Key.name name).step ∧
      (key ≠ .name "" → Key.name name ≠ .name "") := by
  cases key with
  | name text => exact ⟨text, rfl, id⟩
  | index position =>
    refine ⟨String.ofList (decimalDigits position), ?_, fun _ hempty => ?_⟩
    · rw [Key.memberText, Key.step, String.toList_ofList]
    · have hpos : 0 < (decimalDigits position).length := Nat.length_toDigits_pos
      have hnil := congrArg String.toList (Key.name.inj hempty)
      rw [String.toList_ofList] at hnil
      rw [hnil] at hpos
      exact absurd hpos (Nat.lt_irrefl 0)

section Below

variable {n : Node} {keys : List Key} {filled : Prop}

/-- The nodes at and below one step from a place are below it, if those below any place of the value
    there are. -/
theorem isPathBelow_step {v : Value} {key : Key}
    (ih : ∀ keys, ∀ n ∈ nodesBelow (pathText keys) v, IsPathBelow keys filled n.path)
    (hkey : filled → key ≠ .name "")
    (hn : n = ⟨pathText keys ++ String.ofList key.step, v⟩ ∨
      n ∈ nodesBelow (pathText keys ++ String.ofList key.step) v) :
    IsPathBelow keys filled n.path := by
  rw [← pathText_append_singleton] at hn
  rcases hn with rfl | hn
  · refine ⟨[key], List.cons_ne_nil _ _, fun h hmem => ?_, rfl⟩
    exact hkey h (List.mem_singleton.mp hmem).symm
  · obtain ⟨below, -, hnames, hpath⟩ := ih _ n hn
    refine ⟨key :: below, List.cons_ne_nil _ _, fun h hmem => ?_, ?_⟩
    · rcases List.mem_cons.mp hmem with heq | hmem
      · exact hkey h heq.symm
      · exact hnames h hmem
    · rw [hpath, List.append_assoc]
      rfl

theorem isPathBelow_of_mem_nodesOfItems {items : List Value} {position : Nat}
    (ih : ∀ v ∈ items, ∀ keys, ∀ n ∈ nodesBelow (pathText keys) v, IsPathBelow keys filled n.path)
    (hn : n ∈ nodesOfItems (pathText keys) position items) : IsPathBelow keys filled n.path := by
  induction items generalizing position with
  | nil => cases hn
  | cons v items ihs =>
    rw [nodesOfItems, List.mem_append, List.mem_cons] at hn
    rcases hn with hn | hn
    · have hkey : Key.index position ≠ .name "" := fun heq => by cases heq
      exact isPathBelow_step (ih v List.mem_cons_self) (fun _ => hkey) hn
    · exact ihs (fun w hw => ih w (.tail _ hw)) hn

theorem isPathBelow_of_mem_nodesOfMembers {members : Members}
    (hnames : filled → ∀ member ∈ members, member.1 ≠ .name "")
    (ih : ∀ key v, (key, v) ∈ members → ∀ keys, ∀ n ∈ nodesBelow (pathText keys) v,
      IsPathBelow keys filled n.path)
    (hn : n ∈ nodesOfMembers (pathText keys) members) : IsPathBelow keys filled n.path := by
  induction members with
  | nil => cases hn
  | cons member members ihs =>
    obtain ⟨key, v⟩ := member
    obtain ⟨name, hstep, hname⟩ := exists_name_memberText key
    rw [nodesOfMembers, hstep, List.mem_append, List.mem_cons] at hn
    rcases hn with hn | hn
    · exact isPathBelow_step (ih key v List.mem_cons_self)
        (fun h => hname (hnames h _ List.mem_cons_self)) hn
    · exact ihs (fun h member hmember => hnames h member (.tail _ hmember))
        (fun k w hw => ih k w (.tail _ hw)) hn

/-- The paths of the nodes below a place are paths below it. -/
theorem isPathBelow_of_mem_nodesBelow (v : Value) :
    ∀ keys, ∀ n ∈ nodesBelow (pathText keys) v,
      IsPathBelow keys (v.everywhere Value.hasFilledNames = true) n.path := by
  induction v using Value.containerInduction with
  | leaf v hv =>
    intro keys n hn
    have hnone : nodesBelow (pathText keys) v = [] := by
      cases v <;> simp_all [Value.isContainer, nodesBelow]
    rw [hnone] at hn
    cases hn
  | list items ih =>
    intro keys n hn
    rw [Value.everywhere, Bool.and_eq_true, Value.everywhereItems_iff]
    refine isPathBelow_of_mem_nodesOfItems (fun v hv keys n hn => ?_) hn
    obtain ⟨below, hne, hnames, hpath⟩ := ih v hv keys n hn
    exact ⟨below, hne, fun h => hnames (h.2 v hv), hpath⟩
  | map members ih =>
    intro keys n hn
    rw [Value.everywhere, Bool.and_eq_true, Value.everywhereMembers_iff]
    refine isPathBelow_of_mem_nodesOfMembers (fun h member hmember => ?_)
      (fun key v hv keys n hn => ?_) hn
    · exact bne_iff_ne.mp (List.all_eq_true.mp h.1 member hmember)
    · obtain ⟨below, hne, hnames, hpath⟩ := ih key v hv keys n hn
      exact ⟨below, hne, fun h => hnames (h.2 key v hv), hpath⟩

end Below

theorem isNamed_of_mem_allNodes {v : Value} (h : v.everywhere Value.hasFilledNames = true)
    {n : Node} (hn : n ∈ allNodes v) : IsNamed n.path := by
  obtain ⟨below, hne, hnames, hpath⟩ :=
    isPathBelow_of_mem_nodesBelow v [] n (mem_sortByPath.mp hn)
  exact ⟨below, hne, hnames h, hpath⟩

/-- No node of a document lies at the root. -/
theorem pathKeys_ne_of_mem_allNodes {v : Value} {n : Node} (hn : n ∈ allNodes v) :
    pathKeys n.path ≠ .ok [] := by
  obtain ⟨below, hne, -, hpath⟩ := isPathBelow_of_mem_nodesBelow v [] n (mem_sortByPath.mp hn)
  intro hroot
  rw [hpath] at hroot
  exact hne (eq_of_pathKeys_pathText hroot).symm

/-- No node of a regrouped diff lies at the root. -/
theorem pathKeys_ne_of_partition {base modified : Value} {orphans supportSets : Bool}
    {nodes : Partition} (h : partition base modified orphans supportSets = .ok nodes) :
    ∀ node ∈ nodes.set ++ nodes.remove ++ nodes.delete, pathKeys node.path ≠ .ok [] := by
  obtain ⟨hset, hremove, hdelete⟩ := subset_of_partition h
  intro node hnode
  rw [List.mem_append, List.mem_append] at hnode
  rcases hnode with (hnode | hnode) | hnode
  · exact pathKeys_ne_of_mem_allNodes (hset hnode)
  · exact pathKeys_ne_of_mem_allNodes (hremove hnode)
  · exact pathKeys_ne_of_mem_allNodes (hdelete hnode)

theorem hasFilledNames_orEmpty {v : Value} (h : v.everywhere Value.hasFilledNames = true) :
    (orEmpty v).everywhere Value.hasFilledNames = true := by
  cases v <;> exact h

/-- The paths of a regrouped diff are paths along keys none of which is the empty name, if no member
    of the documents has that name. -/
theorem isNamed_of_partition {base modified : Value} {orphans supportSets : Bool}
    {nodes : Partition} (h : partition base modified orphans supportSets = .ok nodes)
    (hbase : base.everywhere Value.hasFilledNames = true)
    (hmodified : modified.everywhere Value.hasFilledNames = true) :
    ∀ node ∈ nodes.set ++ nodes.remove ++ nodes.delete, IsNamed node.path := by
  obtain ⟨hset, hremove, hdelete⟩ := subset_of_partition h
  intro node hnode
  rw [List.mem_append, List.mem_append] at hnode
  rcases hnode with (hnode | hnode) | hnode
  · exact isNamed_of_mem_allNodes (hasFilledNames_orEmpty hmodified) (hset hnode)
  · exact isNamed_of_mem_allNodes (hasFilledNames_orEmpty hbase) (hremove hnode)
  · exact isNamed_of_mem_allNodes (hasFilledNames_orEmpty hbase) (hdelete hnode)

end ItemDelta
