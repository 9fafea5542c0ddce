import ItemDelta.Proofs.Diff.Unchanged
import ItemDelta.Proofs.Expression.Compilation

/-!
# Empty updates

An update without text is one that changes nothing. Every node of a regrouped diff is written down
as an item of its clause, so that the text of an update is empty just if the two documents are
unchanged; nothing is registered then, and nothing else is handed over.

## Main definitions

* `Builder.Retains` — the clauses of a builder stay as they are.

## Main results

* `Clauses.text_eq_empty_iff` — a text is empty if there are no items.
* `clauses_eq_empty_iff_of_addPartition` — there are no items if there are no nodes.
* `update_eq_empty_iff` — an update is empty if the documents are unchanged.
-/

namespace ItemDelta

/-! ### Texts -/

theorem intercalate_ne_empty {separator first : String} {rest : List String} (h : first ≠ "") :
    separator.intercalate (first :: rest) ≠ "" := by
  intro heq
  have htext := congrArg String.toList heq
  rw [String.toList_intercalate, List.map_cons] at htext
  refine h (String.toList_injective ?_)
  cases rest with
  | nil => rwa [List.map_nil, List.intercalate_singleton] at htext
  | cons second rest =>
    rw [List.map_cons, List.intercalate_cons_cons] at htext
    exact (List.append_eq_nil_iff.mp (List.append_eq_nil_iff.mp htext).1).1

theorem ne_empty_of_mem_clause {keyword text : String} {items : List String}
    (h : text ∈ clause keyword items) : text ≠ "" := by
  rw [clause] at h
  split at h
  · cases h
  · rw [List.mem_singleton] at h
    intro hempty
    have htext := congrArg String.toList (h.symm.trans hempty)
    rw [String.toList_append, String.toList_append] at htext
    simp at htext

theorem clause_eq_nil_iff {keyword : String} {items : List String} :
    clause keyword items = [] ↔ items = [] := by
  rw [clause]
  split <;> simp_all

/-- The text of an update is empty just if there are no items. -/
theorem Clauses.text_eq_empty_iff {clauses : Clauses} :
    clauses.text = "" ↔ clauses = .empty := by
  constructor
  · intro h
    have hnone : clauses.texts = [] := by
      cases htexts : clauses.texts with
      | nil => rfl
      | cons first rest =>
        rw [text, htexts] at h
        refine absurd h (intercalate_ne_empty ?_)
        have hfirst : first ∈ clauses.texts := htexts ▸ List.mem_cons_self
        rw [texts, List.mem_append, List.mem_append] at hfirst
        rcases hfirst with (hfirst | hfirst) | hfirst <;> exact ne_empty_of_mem_clause hfirst
    rw [texts, List.append_eq_nil_iff, List.append_eq_nil_iff, clause_eq_nil_iff,
      clause_eq_nil_iff, clause_eq_nil_iff, List.map_eq_nil_iff, List.map_eq_nil_iff] at hnone
    obtain ⟨set, remove, delete⟩ := clauses
    obtain ⟨⟨rfl, rfl⟩, rfl⟩ := hnone
    rfl
  · rintro rfl
    rfl

/-! ### Items -/

namespace Builder

variable {b c : Builder} {nodes : Partition}

/-- The clauses of a builder stay as they are. -/
def Retains (b c : Builder) : Prop := c.clauses = b.clauses

instance : Std.Refl Retains := ⟨fun _ => rfl⟩

instance : IsTrans Builder Retains := ⟨fun _ _ _ h h' => Eq.trans h' h⟩

theorem registering_retains {α : Type} (action : Aliasing α) :
    Leads Retains (registering action) b fun _ _ => True := by
  cases haction : action b.aliasing with
  | ok result t =>
    have hrun : registering action b = .ok result { b with aliasing := t } := by
      rw [registering, haction]
    exact .of_ok hrun rfl trivial
  | error fault t =>
    have hrun : registering action b = .error fault { b with aliasing := t } := by
      rw [registering, haction]
    exact .of_error hrun rfl

theorem aliased_retains (node : Node) : Leads Retains (aliased node .null) b fun _ _ => True :=
  .get (.bind (registering_retains _) fun _ _ _ _ => .pure trivial)

theorem aliasedPath_retains (path : String) :
    Leads Retains (aliasedPath path .null) b fun _ _ => True :=
  .get (registering_retains _)

/-- What is written down has one item for each node. -/
theorem exists_items_of_modify {α : Type} {make : Node → Building α}
    (hmake : ∀ node d, Leads Retains (make node) d fun _ _ => True)
    (change : List α → Builder → Builder) {nodes : List Node} {result : PUnit}
    (h : (nodes.mapM make >>= fun items => modify (change items)) b = .ok result c) :
    ∃ items d, items.length = nodes.length ∧ d.clauses = b.clauses ∧ c = change items d := by
  obtain ⟨items, d, hitems, hmodify⟩ := exists_ok_of_bind h
  have hmapM : Leads Retains (nodes.mapM make) b fun items _ =>
      List.Forall₂ (fun _ _ => True) items nodes :=
    .mapM (fun _ _ _ _ _ h => h) fun node _ d _ => hmake node d
  obtain ⟨hretains, hlength⟩ := hmapM.ok items d hitems
  refine ⟨items, d, hlength.length_eq, hretains, ?_⟩
  cases hmodify
  rfl

/-- A regrouped diff is written down with one item for each of its nodes. -/
theorem length_of_addPartition {result : Unit} (h : addPartition nodes b = .ok result c) :
    c.clauses.set.length = b.clauses.set.length + nodes.set.length ∧
      c.clauses.remove.length = b.clauses.remove.length + nodes.remove.length ∧
      c.clauses.delete.length = b.clauses.delete.length + nodes.delete.length := by
  obtain ⟨_, d, hset, h⟩ := exists_ok_of_bind h
  obtain ⟨_, e, hremove, hdelete⟩ := exists_ok_of_bind h
  obtain ⟨sets, d', hsets, hd, rfl⟩ :=
    exists_items_of_modify (fun node _ => aliased_retains node) _ hset
  obtain ⟨removes, e', hremoves, he, rfl⟩ :=
    exists_items_of_modify (fun node _ => aliasedPath_retains node.path) _ hremove
  obtain ⟨deletes, c', hdeletes, hc, rfl⟩ :=
    exists_items_of_modify (fun node _ => aliased_retains node) _ hdelete
  simp only [hc, he, hd, List.length_append, hsets, hremoves, hdeletes]
  exact ⟨trivial, trivial, trivial⟩

/-- Nothing is written down just if no clause has a node. -/
theorem clauses_eq_empty_iff_of_addPartition {context : AliasContext} {lead : Value}
    {result : Unit} (h : addPartition nodes (start context lead) = .ok result c) :
    c.clauses = .empty ↔ nodes = ⟨[], [], []⟩ := by
  obtain ⟨hset, hremove, hdelete⟩ := length_of_addPartition h
  obtain ⟨sets, removes, deletes⟩ := nodes
  obtain ⟨aliasing, lead', ⟨items, paths, elements⟩, condition⟩ := c
  simp only [start, Clauses.empty, List.length_nil, Nat.zero_add] at hset hremove hdelete ⊢
  simp only [Clauses.mk.injEq, Partition.mk.injEq, ← List.length_eq_zero_iff, hset, hremove,
    hdelete]

end Builder

/-! ### Expressions -/

/-- Without nodes a builder takes no step. -/
theorem addPartition_empty (b : Builder) :
    Builder.addPartition ⟨[], [], []⟩ b = .ok () { b with clauses :=
      ⟨b.clauses.set ++ [], b.clauses.remove ++ [], b.clauses.delete ++ []⟩ } := rfl

theorem exists_of_updateExpression {a b : Value} {orphans supportSets : Bool}
    {context after : AliasContext} {expression : Expression}
    (h : updateExpression a b orphans supportSets context = .ok expression after) :
    ∃ nodes c, partition a b orphans supportSets = .ok nodes ∧
      Builder.addPartition nodes (.start context .null) = .ok () c ∧ expression = c.finish := by
  obtain ⟨nodes, _, hnodes, hbuild⟩ := exists_ok_of_bind h
  cases hpartition : partition a b orphans supportSets with
  | error fault =>
    rw [hpartition] at hnodes
    cases hnodes
  | ok found =>
    rw [hpartition] at hnodes
    cases hnodes
    rw [build] at hbuild
    split at hbuild
    · cases hbuild
      exact ⟨_, _, rfl, ‹_›, rfl⟩
    · cases hbuild

/-- The update between two documents is empty just if they are unchanged, and nothing is handed
    over beside it then. -/
theorem update_eq_empty_iff {a b : Value} (ha : a.IsDocument) (hb : b.IsDocument)
    {orphans supportSets : Bool} {context after : AliasContext} {expression : Expression}
    (h : updateExpression a b orphans supportSets context = .ok expression after) :
    (expression.update = "" ↔ Unchanged a b) ∧
      (expression.update = "" →
        expression.toValue = .ofNamed [("UpdateExpression", .text "")]) := by
  obtain ⟨nodes, c, hnodes, hadd, rfl⟩ := exists_of_updateExpression h
  have hempty : c.finish.update = "" ↔ nodes = ⟨[], [], []⟩ :=
    Clauses.text_eq_empty_iff.trans (Builder.clauses_eq_empty_iff_of_addPartition hadd)
  refine ⟨hempty.trans (partition_eq_empty_iff ha hb hnodes), fun hupdate => ?_⟩
  rw [hempty.mp hupdate, addPartition_empty] at hadd
  cases hadd
  rfl

/-- Members that change places and a number that is written in another way are no changes. -/
theorem update_eq_empty_of_reordered :
    let base : Value := .ofNamed [("n", .int 1), ("m", .ofNamed [("e", .emptyList)])]
    let modified : Value :=
      .ofNamed [("m", .ofNamed [("e", .emptyList)]), ("n", .decimal (.finite false 10 (-1)))]
    ∃ expression after, updateExpression base modified true false ⟨.null, 1, []⟩ =
        .ok expression after ∧
      expression.update = "" ∧ expression.toValue = .ofNamed [("UpdateExpression", .text "")] := by
  intro base modified
  have hbase : base.IsDocument := ⟨rfl, by decide, by decide⟩
  have hmodified : modified.IsDocument := ⟨rfl, by decide, by decide⟩
  have hedits : structuralEdits true base modified = [] := by decide +kernel
  have hunchanged : Unchanged base modified :=
    (structuralEdits_eq_nil_iff hbase.named hmodified.named rfl).mp hedits
  have hnodes : partition base modified true false = .ok ⟨[], [], []⟩ := by
    rw [partition, diff_eq_ok true hbase hmodified (by decide) (by decide) (by decide) (by decide),
      structuralDiff, hedits]
    show Except.ok (⟨sortByPath [] ++ sortByPath [], sortByPath [], []⟩ : Partition) = _
    rw [sortByPath, List.mergeSort_nil, List.append_nil]
  have hrun : updateExpression base modified true false ⟨.null, 1, []⟩ =
      .ok ⟨"", [], [], none⟩ ⟨.null, 1, []⟩ := by
    rw [updateExpression, ofExcept_bind_of_ok hnodes]
    rfl
  obtain ⟨hiff, hvalue⟩ := update_eq_empty_iff hbase hmodified hrun
  exact ⟨_, _, hrun, hiff.mpr hunchanged, hvalue (hiff.mpr hunchanged)⟩

end ItemDelta
