import ItemDelta.Node
import ItemDelta.Proofs.Value.Document

/-!
# Flattened documents

The nodes of a document are the places that reads along keys lead to, each of them once, and the
list of nodes ascends strictly by path.

## Main definitions

* `Node.along` — the node of a value at the end of a list of keys.
* `Value.IsLegible` — the paths of all places of a value can be read back.
* `Value.IsReadable` — besides, the keys of all its maps are names.
* `Ascending` — a list of nodes ascends strictly by path.

## Main results

* `mem_nodesBelow` — the nodes below a value are the places that reads along keys lead to.
* `distinctPaths_nodesBelow` — no two of them have one path.
* `ext_of_ascending` — ascending lists of nodes are equal if they have the same elements.
-/

namespace ItemDelta

/-- The node of a value at the end of a list of keys. -/
def Node.along (keys : List Key) (value : Value) : Node := ⟨pathText keys, value⟩

@[simp] theorem Node.along_path (keys : List Key) (value : Value) :
    (Node.along keys value).path = pathText keys := rfl

@[simp] theorem Node.along_value (keys : List Key) (value : Value) :
    (Node.along keys value).value = value := rfl

/-- The paths of all places of a value can be read back. -/
def Value.IsLegible (v : Value) : Prop :=
  ∀ keys w, v.get? keys = some w → ∀ key ∈ keys, key.isLegible = true

/-- All maps in a value have names as keys, and the paths of all its places can be read back. -/
structure Value.IsReadable (v : Value) : Prop where
  named : v.everywhere Value.hasNames = true
  legible : v.IsLegible

theorem Value.IsDocument.isReadable {v : Value} (h : v.IsDocument)
    (hnames : v.everywhere Value.hasLegibleNames = true) : v.IsReadable where
  named := h.named
  legible _ _ hw := Value.isLegible_of_get? hnames h.countable hw

/-! ### Nodes and places -/

/-- A node lies at or below a value that lies at the end of a list of keys. -/
def Node.LiesUnder (n : Node) (keys : List Key) (v : Value) : Prop :=
  ∃ rest w, v.get? rest = some w ∧ n = Node.along (keys ++ rest) w

theorem liesUnder_iff {n : Node} {keys : List Key} {v : Value} :
    n.LiesUnder keys v ↔ n = Node.along keys v ∨
      ∃ rest w, rest ≠ [] ∧ v.get? rest = some w ∧ n = Node.along (keys ++ rest) w := by
  constructor
  · rintro ⟨rest, w, hget, rfl⟩
    cases rest with
    | nil =>
      rw [Value.get?_nil, Option.some.injEq] at hget
      exact .inl (by rw [List.append_nil, hget])
    | cons key rest => exact .inr ⟨key :: rest, w, List.cons_ne_nil _ _, hget, rfl⟩
  · rintro (rfl | ⟨rest, w, -, hget, rfl⟩)
    · exact ⟨[], v, Value.get?_nil v, by rw [List.append_nil]⟩
    · exact ⟨rest, w, hget, rfl⟩

section Below

variable {n : Node} {keys : List Key}

theorem mem_nodesOfItems {items : List Value} {position : Nat}
    (ih : ∀ v ∈ items, ∀ keys n, n ∈ nodesBelow (pathText keys) v ↔
      ∃ rest w, rest ≠ [] ∧ v.get? rest = some w ∧ n = Node.along (keys ++ rest) w) :
    n ∈ nodesOfItems (pathText keys) position items ↔
      ∃ i v, items[i]? = some v ∧ n.LiesUnder (keys ++ [.index (position + i)]) v := by
  induction items generalizing position with
  | nil => simp [nodesOfItems]
  | cons v items ihs =>
    have hstep : pathText keys ++ String.ofList (indexStep position) =
        pathText (keys ++ [.index position]) :=
      (pathText_append_singleton keys (.index position)).symm
    rw [nodesOfItems, hstep, List.mem_append, List.mem_cons, ih v (by simp),
      ihs fun w hw => ih w (by simp [hw])]
    constructor
    · rintro (h | ⟨i, w, hi, h⟩)
      · exact ⟨0, v, rfl, liesUnder_iff.mpr h⟩
      · exact ⟨i + 1, w, hi, by rwa [Nat.add_assoc, Nat.add_comm 1 i] at h⟩
    · rintro ⟨i, w, hi, h⟩
      cases i with
      | zero =>
        rw [List.getElem?_cons_zero, Option.some.injEq] at hi
        exact .inl (liesUnder_iff.mp (hi ▸ h))
      | succ i =>
        rw [List.getElem?_cons_succ] at hi
        exact .inr ⟨i, w, hi, by rwa [Nat.add_assoc, Nat.add_comm 1 i]⟩

theorem mem_nodesOfMembers {members : Members}
    (hnames : ∀ key ∈ members.keys, ∃ name, key = .name name)
    (ih : ∀ key v, (key, v) ∈ members → ∀ keys n, n ∈ nodesBelow (pathText keys) v ↔
      ∃ rest w, rest ≠ [] ∧ v.get? rest = some w ∧ n = Node.along (keys ++ rest) w) :
    n ∈ nodesOfMembers (pathText keys) members ↔
      ∃ key v, (key, v) ∈ members ∧ n.LiesUnder (keys ++ [key]) v := by
  induction members with
  | nil => simp [nodesOfMembers]
  | cons member members ihs =>
    obtain ⟨key, v⟩ := member
    obtain ⟨name, rfl⟩ := hnames key (by simp)
    have hstep : pathText keys ++ Key.memberText (.name name) =
        pathText (keys ++ [.name name]) :=
      (pathText_append_singleton keys (.name name)).symm
    rw [nodesOfMembers, hstep, List.mem_append, List.mem_cons, ih (.name name) v (by simp),
      ihs (fun k hk => hnames k (by simp [hk])) fun k w hw => ih k w (by simp [hw])]
    constructor
    · rintro (h | ⟨k, w, hmem, h⟩)
      · exact ⟨.name name, v, by simp, liesUnder_iff.mpr h⟩
      · exact ⟨k, w, by simp [hmem], h⟩
    · rintro ⟨k, w, hmem, h⟩
      rcases List.mem_cons.mp hmem with heq | hmem
      · rw [Prod.mk.injEq] at heq
        rw [heq.1, heq.2] at h
        exact .inl (liesUnder_iff.mp h)
      · exact .inr ⟨k, w, hmem, h⟩

/-- A place strictly below a value lies under one of its steps. -/
theorem exists_liesUnder_child?_iff {v : Value} :
    (∃ key w, v.child? key = some w ∧ n.LiesUnder (keys ++ [key]) w) ↔
      ∃ rest w, rest ≠ [] ∧ v.get? rest = some w ∧ n = Node.along (keys ++ rest) w := by
  constructor
  · rintro ⟨key, child, hchild, rest, w, hw, rfl⟩
    refine ⟨key :: rest, w, List.cons_ne_nil _ _, ?_, ?_⟩
    · rw [Value.get?_cons, hchild]
      exact hw
    · rw [List.append_assoc]
      rfl
  · rintro ⟨rest, w, hne, hw, rfl⟩
    cases rest with
    | nil => exact absurd rfl hne
    | cons key rest =>
      rw [Value.get?_cons, Option.bind_eq_some_iff] at hw
      obtain ⟨child, hchild, hw⟩ := hw
      refine ⟨key, child, hchild, rest, w, hw, ?_⟩
      rw [List.append_assoc]
      rfl

/-- The nodes strictly below a value are the places strictly below it. -/
theorem mem_nodesBelow {v : Value} (h : v.everywhere Value.hasNames = true) :
    n ∈ nodesBelow (pathText keys) v ↔
      ∃ rest w, rest ≠ [] ∧ v.get? rest = some w ∧ n = Node.along (keys ++ rest) w := by
  induction v using Value.containerInduction generalizing keys n with
  | leaf v hv =>
    have hchild : ∀ key, v.child? key = none := by
      intro key
      cases v <;> cases key <;> simp_all [Value.isContainer, Value.child?]
    have hnone : nodesBelow (pathText keys) v = [] := by
      cases v <;> simp_all [Value.isContainer, nodesBelow]
    rw [← exists_liesUnder_child?_iff, hnone]
    simp [hchild]
  | list items ih =>
    simp only [Value.everywhere, Bool.and_eq_true, Value.everywhereItems_iff] at h
    rw [← exists_liesUnder_child?_iff, nodesBelow,
      mem_nodesOfItems fun v hv keys n => ih v hv (h.2 v hv)]
    constructor
    · rintro ⟨i, w, hi, hunder⟩
      rw [Nat.zero_add] at hunder
      exact ⟨.index i, w, hi, hunder⟩
    · rintro ⟨key, w, hchild, hunder⟩
      cases key with
      | name name => simp [Value.child?] at hchild
      | index i =>
        refine ⟨i, w, hchild, ?_⟩
        rw [Nat.zero_add]
        exact hunder
  | map members ih =>
    have hnames := Value.test_of_everywhere h
    simp only [Value.everywhere, Bool.and_eq_true, Value.everywhereMembers_iff] at h
    rw [← exists_liesUnder_child?_iff, nodesBelow,
      mem_nodesOfMembers (fun key hkey => Value.exists_name_of_hasNames hnames hkey)
        fun key v hv keys n => ih key v hv (h.2 key v hv)]
    simp only [Value.child?_map hnames,
      Members.get?_eq_some_iff (Value.nodup_keys_of_hasNames hnames)]

end Below

/-! ### Order -/

/-- A list of nodes ascends strictly by path, so no path occurs twice. -/
def Ascending (nodes : List Node) : Prop := nodes.Pairwise fun a b => a.path < b.path

/-- The paths of a list of nodes differ from each other. -/
def DistinctPaths (nodes : List Node) : Prop := nodes.Pairwise fun a b => a.path ≠ b.path

theorem Ascending.distinctPaths {nodes : List Node} (h : Ascending nodes) :
    DistinctPaths nodes :=
  h.imp fun hlt heq => absurd (heq ▸ hlt) (String.lt_irrefl _)

theorem Ascending.filter {nodes : List Node} (h : Ascending nodes) (p : Node → Bool) :
    Ascending (nodes.filter p) := List.Pairwise.filter p h

theorem mem_sortByPath {n : Node} {nodes : List Node} : n ∈ sortByPath nodes ↔ n ∈ nodes :=
  List.mem_mergeSort

theorem sortByPath_perm (nodes : List Node) : (sortByPath nodes).Perm nodes :=
  List.mergeSort_perm nodes _

theorem ascending_sortByPath {nodes : List Node} (h : DistinctPaths nodes) :
    Ascending (sortByPath nodes) := by
  have hle : (sortByPath nodes).Pairwise fun a b => decide (a.path ≤ b.path) := by
    apply List.pairwise_mergeSort
    · intro a b c hab hbc
      rw [decide_eq_true_eq] at *
      exact String.le_trans hab hbc
    · intro a b
      rw [Bool.or_eq_true, decide_eq_true_eq, decide_eq_true_eq]
      exact String.le_total a.path b.path
  have hne : DistinctPaths (sortByPath nodes) :=
    (sortByPath_perm nodes).symm.pairwise h fun hab hba => hab hba.symm
  refine List.Pairwise.imp₂ (fun a b hab hne => ?_) hle hne
  rw [decide_eq_true_eq] at hab
  exact String.not_le.mp fun hba => hne (String.le_antisymm hab hba)

/-- Ascending lists of nodes are equal if they have the same elements. -/
theorem ext_of_ascending {nodes others : List Node} (hnodes : Ascending nodes)
    (hothers : Ascending others) (h : ∀ n, n ∈ nodes ↔ n ∈ others) : nodes = others := by
  have hnodup : ∀ {l : List Node}, Ascending l → l.Nodup := fun hl =>
    hl.imp fun hlt heq => absurd (heq ▸ hlt) (String.lt_irrefl _)
  have hperm : nodes.Perm others :=
    (List.perm_ext_iff_of_nodup (hnodup hnodes) (hnodup hothers)).mpr h
  exact hperm.eq_of_pairwise
    (fun a b _ _ hab hba => absurd (String.lt_trans hab hba) (String.lt_irrefl _)) hnodes hothers

theorem nodeAt?_eq_some_iff {nodes : List Node} (h : DistinctPaths nodes) {path : String}
    {n : Node} : nodeAt? nodes path = some n ↔ n ∈ nodes ∧ n.path = path := by
  constructor
  · intro hfind
    exact ⟨List.mem_of_find?_eq_some hfind, by simpa using List.find?_some hfind⟩
  · rintro ⟨hmem, rfl⟩
    induction nodes with
    | nil => simp at hmem
    | cons m nodes ih =>
      rw [DistinctPaths, List.pairwise_cons] at h
      rw [nodeAt?, List.find?_cons]
      rcases List.mem_cons.mp hmem with rfl | hmem
      · simp
      · have hne : (m.path == n.path) = false := by simpa using h.1 n hmem
        rw [hne]
        exact ih h.2 hmem

theorem nodeAt?_eq_none_iff {nodes : List Node} {path : String} :
    nodeAt? nodes path = none ↔ ∀ n ∈ nodes, n.path ≠ path := by
  simp [nodeAt?, List.find?_eq_none]

/-! ### Distinct paths -/

section Distinct

variable {keys : List Key}

/-- Nodes that lie under different steps have different paths. -/
theorem path_ne_of_liesUnder {a b : Node} {k l : Key} {v w : Value} (hkl : k ≠ l)
    (hkeys : ∀ key ∈ keys, key.isLegible = true) (hk : k.isLegible = true)
    (hl : l.isLegible = true) (hv : v.IsLegible) (hw : w.IsLegible)
    (ha : a.LiesUnder (keys ++ [k]) v) (hb : b.LiesUnder (keys ++ [l]) w) : a.path ≠ b.path := by
  obtain ⟨rest, x, hx, rfl⟩ := ha
  obtain ⟨others, y, hy, rfl⟩ := hb
  have hlegible : ∀ {key : Key} {rest : List Key}, key.isLegible = true →
      (∀ key ∈ rest, key.isLegible = true) →
      ∀ k ∈ keys ++ [key] ++ rest, k.isLegible = true := by
    intro key rest hkey hrest k hk
    simp only [List.append_assoc, List.mem_append, List.mem_singleton] at hk
    rcases hk with hk | rfl | hk
    · exact hkeys k hk
    · exact hkey
    · exact hrest k hk
  rw [Node.along_path, Node.along_path, ne_eq,
    pathText_inj (hlegible hk (hv rest x hx)) (hlegible hl (hw others y hy))]
  simp [hkl]

theorem Value.IsReadable.child {v w : Value} {key : Key} (h : v.IsReadable)
    (hchild : v.child? key = some w) : key.isLegible = true ∧ w.IsReadable := by
  have hstep : ∀ rest x, w.get? rest = some x → ∀ k ∈ key :: rest, k.isLegible = true := by
    intro rest x hx
    refine h.legible (key :: rest) x ?_
    rw [Value.get?_cons, hchild]
    exact hx
  have hlegible : w.IsLegible := fun rest x hx k hk => hstep rest x hx k (by simp [hk])
  exact ⟨hstep [] w (Value.get?_nil w) key (by simp),
    Value.everywhere_of_child? h.named hchild, hlegible⟩

section Steps

variable (hkeys : ∀ key ∈ keys, key.isLegible = true)

include hkeys

theorem distinctPaths_self_below {v : Value} (h : v.IsReadable)
    (hbelow : DistinctPaths (nodesBelow (pathText keys) v)) :
    DistinctPaths (Node.along keys v :: nodesBelow (pathText keys) v) := by
  refine List.pairwise_cons.mpr ⟨fun n hn => ?_, hbelow⟩
  obtain ⟨rest, w, hne, hw, rfl⟩ := (mem_nodesBelow h.named).mp hn
  have hrest : ∀ key ∈ keys ++ rest, key.isLegible = true := by
    intro key hkey
    rcases List.mem_append.mp hkey with hkey | hkey
    · exact hkeys key hkey
    · exact h.legible rest w hw key hkey
  rw [Node.along_path, Node.along_path, ne_eq, pathText_inj hkeys hrest]
  simp [hne]

/-- The nodes at and below one step differ in their paths from those under other steps. -/
theorem distinctPaths_step {key : Key} {w : Value} {after : List Node}
    (hkey : key.isLegible = true) (hw : w.IsReadable)
    (ih : ∀ {keys : List Key}, (∀ key ∈ keys, key.isLegible = true) →
      DistinctPaths (nodesBelow (pathText keys) w))
    (hafter : DistinctPaths after)
    (hother : ∀ n ∈ after, ∃ other x, other ≠ key ∧ other.isLegible = true ∧ x.IsReadable ∧
      n.LiesUnder (keys ++ [other]) x) :
    DistinctPaths (Node.along (keys ++ [key]) w ::
      nodesBelow (pathText (keys ++ [key])) w ++ after) := by
  have hstep : ∀ k ∈ keys ++ [key], k.isLegible = true := by
    intro k hk
    rcases List.mem_append.mp hk with hk | hk
    · exact hkeys k hk
    · exact List.mem_singleton.mp hk ▸ hkey
  refine List.pairwise_append.mpr ⟨distinctPaths_self_below hstep hw (ih hstep), hafter, ?_⟩
  intro n hn m hm
  rw [List.mem_cons, mem_nodesBelow hw.named] at hn
  obtain ⟨other, x, hne, hlegible, hx, hm⟩ := hother m hm
  exact path_ne_of_liesUnder hne.symm hkeys hkey hlegible hw.legible hx.legible
    (liesUnder_iff.mpr hn) hm

theorem distinctPaths_nodesOfItems {items : List Value} {position : Nat}
    (hread : ∀ i w, items[i]? = some w → (Key.index (position + i)).isLegible = true ∧
      w.IsReadable)
    (ih : ∀ w ∈ items, ∀ {keys : List Key}, (∀ key ∈ keys, key.isLegible = true) →
      DistinctPaths (nodesBelow (pathText keys) w)) :
    DistinctPaths (nodesOfItems (pathText keys) position items) := by
  induction items generalizing position with
  | nil => exact .nil
  | cons w items ihs =>
    have hitems : ∀ i x, items[i]? = some x → (Key.index (position + 1 + i)).isLegible = true ∧
        x.IsReadable := by
      intro i x hx
      rw [Nat.add_assoc, Nat.add_comm 1 i]
      exact hread (i + 1) x hx
    have hstep : pathText keys ++ String.ofList (indexStep position) =
        pathText (keys ++ [.index position]) :=
      (pathText_append_singleton keys (.index position)).symm
    obtain ⟨hkey, hw⟩ := hread 0 w rfl
    rw [nodesOfItems, hstep]
    refine distinctPaths_step hkeys hkey hw (ih w List.mem_cons_self)
      (ihs hitems fun x hx => ih x (List.mem_cons_of_mem _ hx)) fun n hn => ?_
    rw [mem_nodesOfItems fun x hx keys n => by
      obtain ⟨i, hi⟩ := List.getElem?_of_mem hx
      exact mem_nodesBelow (hitems i x hi).2.named] at hn
    obtain ⟨i, x, hx, hn⟩ := hn
    refine ⟨_, x, ?_, (hitems i x hx).1, (hitems i x hx).2, hn⟩
    rw [ne_eq, Key.index.injEq]
    omega

theorem distinctPaths_nodesOfMembers {members : Members}
    (hnames : ∀ key ∈ members.keys, ∃ name, key = .name name) (hnodup : members.keys.Nodup)
    (hread : ∀ key w, (key, w) ∈ members → key.isLegible = true ∧ w.IsReadable)
    (ih : ∀ key w, (key, w) ∈ members → ∀ {keys : List Key},
      (∀ key ∈ keys, key.isLegible = true) → DistinctPaths (nodesBelow (pathText keys) w)) :
    DistinctPaths (nodesOfMembers (pathText keys) members) := by
  induction members with
  | nil => exact .nil
  | cons member members ihs =>
    obtain ⟨key, w⟩ := member
    obtain ⟨name, rfl⟩ := hnames key List.mem_cons_self
    rw [Members.keys_cons, List.nodup_cons] at hnodup
    have hrest : ∀ k ∈ Members.keys members, ∃ name, k = Key.name name :=
      fun k hk => hnames k (List.mem_cons_of_mem _ hk)
    have hmembers := fun k x hmem => hread k x (List.mem_cons_of_mem _ hmem)
    have hstep : pathText keys ++ Key.memberText (.name name) = pathText (keys ++ [.name name]) :=
      (pathText_append_singleton keys (.name name)).symm
    obtain ⟨hkey, hw⟩ := hread (.name name) w List.mem_cons_self
    rw [nodesOfMembers, hstep]
    refine distinctPaths_step hkeys hkey hw (ih _ w List.mem_cons_self)
      (ihs hrest hnodup.2 hmembers fun k x hmem => ih k x (List.mem_cons_of_mem _ hmem))
      fun n hn => ?_
    rw [mem_nodesOfMembers hrest fun k x hmem keys n =>
      mem_nodesBelow (hmembers k x hmem).2.named] at hn
    obtain ⟨k, x, hmem, hn⟩ := hn
    refine ⟨k, x, ?_, (hmembers k x hmem).1, (hmembers k x hmem).2, hn⟩
    rintro rfl
    exact hnodup.1 (Members.mem_keys_of_mem hmem)

end Steps

/-- The nodes strictly below a value whose paths can be read back have different paths. -/
theorem distinctPaths_nodesBelow {v : Value} (h : v.IsReadable)
    (hkeys : ∀ key ∈ keys, key.isLegible = true) :
    DistinctPaths (nodesBelow (pathText keys) v) := by
  induction v using Value.containerInduction generalizing keys with
  | leaf v hv => cases v <;> simp_all [Value.isContainer, nodesBelow, DistinctPaths]
  | list items ih =>
    have hread : ∀ i w, items[i]? = some w → (Key.index i).isLegible = true ∧ w.IsReadable :=
      fun i w hi => h.child hi
    rw [nodesBelow]
    refine distinctPaths_nodesOfItems hkeys (fun i w hi => ?_) fun w hw => ?_
    · rw [Nat.zero_add]
      exact hread i w hi
    · obtain ⟨i, hi⟩ := List.getElem?_of_mem hw
      exact ih w hw (hread i w hi).2
  | map members ih =>
    have hnames := Value.test_of_everywhere h.named
    have hnodup := Value.nodup_keys_of_hasNames hnames
    have hread : ∀ key w, (key, w) ∈ members → key.isLegible = true ∧ w.IsReadable := by
      intro key w hmem
      refine h.child ?_
      rw [Value.child?_map hnames, Members.get?_eq_some_iff hnodup]
      exact hmem
    rw [nodesBelow]
    exact distinctPaths_nodesOfMembers hkeys (fun key => Value.exists_name_of_hasNames hnames)
      hnodup hread fun key w hmem => ih key w hmem (hread key w hmem).2

end Distinct

end ItemDelta
