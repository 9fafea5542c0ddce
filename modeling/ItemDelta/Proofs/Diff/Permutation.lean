import ItemDelta.Proofs.Diff.Patching
import ItemDelta.Proofs.Value.Reordering
import Mathlib.Data.List.Perm.Basic

/-!
# The operations of a diff in any order

The nodes of a diff are removals and writes on a document. A patch runs them bucket by bucket, but
the document that they end in is the same in every order, whatever they pad and create on their
way: only the members of its maps may have changed places.

## Main definitions

* `Operation` — a removal or a write at a path.
* `Diff.operations` — the operations of a diff.
* `runOperations` — a document after some operations.

## Main results

* `exists_runOperations_of_perm` — in any order the operations end in the patched document.
-/

namespace ItemDelta

/-- A removal at a path, or a write of a value there. -/
inductive Operation where
  | remove (path : String)
  | write (path : String) (value : Value)
deriving DecidableEq

/-- A document after an operation. -/
def Operation.run : Operation → Value → Except Error Value
  | .remove path, v => removePath v path
  | .write path value, v => (setPath v path value).toExcept

/-- A document after several operations, one after the other. -/
def runOperations (operations : List Operation) (v : Value) : Except Error Value :=
  operations.foldlM (fun v operation => operation.run v) v

/-- The operations of a diff, in the order in which a patch runs them. -/
def Diff.operations (d : Diff) : List Operation :=
  d.delete.map (fun node => .remove node.path) ++
    (d.add ++ d.set).map fun node => .write node.path node.value

/-- The operation that an edit is. -/
def Edit.operation (c : Edit) : Operation :=
  if c.bucket = .delete then .remove c.node.path else .write c.node.path c.node.value

section Operations

variable {orphans : Bool} {a b v : Value} {edits : List Edit} {c : Edit}

theorem run_operation (hkeys : ∀ key ∈ c.keys, key.isLegible = true) :
    c.operation.run v = c.run v := by
  rw [Edit.operation]
  split
  · rename_i hdelete
    exact removePath_node hdelete hkeys
  · rename_i hwrite
    exact setPath_node hwrite hkeys

theorem runOperations_map_operation (hkeys : ∀ c ∈ edits, ∀ key ∈ c.keys, key.isLegible = true) :
    runOperations (edits.map Edit.operation) v = runEdits edits v := by
  induction edits generalizing v with
  | nil => rfl
  | cons c edits ih =>
    have hstep : runOperations ((c :: edits).map Edit.operation) v =
        (c.operation.run v).bind (runOperations (edits.map Edit.operation)) := rfl
    rw [hstep, runEdits_cons, run_operation (hkeys c List.mem_cons_self)]
    cases c.run v with
    | error error => rfl
    | ok w => exact ih fun d hd => hkeys d (List.mem_cons_of_mem c hd)

/-- The operations of the structural diff are those of its edits. -/
theorem operations_structuralDiff (orphans : Bool) (a b : Value) :
    (structuralDiff orphans a b).operations =
      (editsInOrder (structuralEdits orphans a b)).map Edit.operation := by
  have hbucket : ∀ {bucket} {operation : Node → Operation},
      (∀ c : Edit, c.bucket = bucket → c.operation = operation c.node) →
      (bucketNodes bucket (structuralEdits orphans a b)).map operation =
        (sortedEdits bucket (structuralEdits orphans a b)).map Edit.operation := by
    intro bucket operation h
    rw [← map_node_sortedEdits, List.map_map]
    exact List.map_congr_left fun c hc => (h c (mem_sortedEdits.mp hc).2).symm
  have hremove : ∀ c : Edit, c.bucket = .delete → c.operation = .remove c.node.path :=
    fun c hc => if_pos hc
  have hwrite : ∀ bucket, bucket ≠ .delete → ∀ c : Edit, c.bucket = bucket →
      c.operation = .write c.node.path c.node.value :=
    fun bucket hne c hc => if_neg fun hdelete => hne (hc.symm.trans hdelete)
  rw [Diff.operations, structuralDiff, List.map_append, hbucket hremove,
    hbucket (hwrite .add (by decide)), hbucket (hwrite .set (by decide)), editsInOrder,
    List.map_append, List.map_append]

/-- Another order of the operations of some edits is that of the edits in another order. -/
theorem exists_perm_of_map_operation {operations : List Operation}
    (h : operations.Perm (edits.map Edit.operation)) :
    ∃ others : List Edit, others.Perm edits ∧ operations = others.map Edit.operation := by
  have hmap : List.Forall₂ (fun operation c => operation = Edit.operation c)
      (edits.map Edit.operation) edits := List.forall₂_map_left_iff.mpr (List.forall₂_same.mpr
        fun _ _ => rfl)
  obtain ⟨others, hothers, hperm⟩ := List.perm_comp_forall₂ h hmap
  refine ⟨others, hperm, ?_⟩
  rw [← List.forall₂_eq_eq_eq, List.forall₂_map_right_iff]
  exact hothers

end Operations

/-- The operations of a diff, run on the base document in any order, end in the document that the
    base document is patched to, but for the order of members. The lists of the other document are
    in memory, so there is room to build them up again. -/
theorem exists_runOperations_of_perm (orphans : Bool) {a b : Value} (ha : a.IsDocument)
    (hb : b.IsDocument) (hmemory : b.everywhere Value.fitsMemory = true) {d : Diff}
    (h : diff a b orphans = .ok d) :
    ∃ v, patchWith a d = .ok v ∧ ∀ operations, operations.Perm d.operations →
      ∃ w, runOperations operations a = .ok w ∧ w.Reordered v := by
  have hshares := sharesContainer_of_isDocument ha hb
  obtain ⟨hra, hrb, rfl⟩ := eq_structuralDiff_of_diff ha.named hb.named hshares h
  have hlegible : ∀ c ∈ structuralEdits orphans a b, ∀ key ∈ c.keys, key.isLegible = true := by
    intro c hc
    rw [mem_structuralEdits_iff ha.named hb.named hshares] at hc
    exact isLegible_of_isEdit hra hrb hc.2
  -- In whatever order the edits are run, the outcome is the merge of both documents.
  have hmerge : ∀ {edits : List Edit}, edits.Perm (structuralEdits orphans a b) →
      ∃ w, runEdits edits a = .ok w ∧ w.Reordered (mergeRoots orphans a b) :=
    exists_runEdits_of_perm Value.isCongruence_reordered orphans
      (Value.isSelfRelated_reordered ha.named) (Value.isSelfRelated_reordered hb.named) hmemory
      hshares
  obtain ⟨v, hrun, hv⟩ := hmerge (editsInOrder_perm _)
  refine ⟨v, ?_, fun operations hoperations => ?_⟩
  · have hcontainer : a.isContainer = true := by
      obtain ⟨members, rfl⟩ := ha.exists_eq_map
      rfl
    rw [patchWith, structuralDiff_check orphans hra hrb hshares, hcontainer]
    exact (apply_structuralDiff hlegible).trans hrun
  · rw [operations_structuralDiff] at hoperations
    obtain ⟨edits, hedits, rfl⟩ := exists_perm_of_map_operation hoperations
    have hperm := hedits.trans (editsInOrder_perm _)
    obtain ⟨w, hw, hreordered⟩ := hmerge hperm
    refine ⟨w, ?_, hreordered.trans hv.symm⟩
    rw [runOperations_map_operation fun c hc => hlegible c (hperm.mem_iff.mp hc)]
    exact hw

/-- A map that is emptied can be written before its member is removed, and an element behind the
    end of a list before the one in front of it. -/
theorem runOperations_of_emptied_map :
    let base : Value := .ofNamed [("l", .emptyList), ("m", .ofNamed [("k", .int 1)])]
    ∃ v w, patchWith base ⟨[⟨"$.l[0]", .int 2⟩, ⟨"$.l[1]", .int 3⟩, ⟨"$.m", .emptyMap⟩], [],
        [⟨"$.m.k", .int 1⟩]⟩ = .ok v ∧
      runOperations [.write "$.m" .emptyMap, .write "$.l[1]" (.int 3), .remove "$.m.k",
        .write "$.l[0]" (.int 2)] base = .ok w ∧ w.Reordered v := by
  intro base
  have hbase : base.IsDocument := ⟨rfl, by decide, by decide⟩
  have hmodified : (Value.ofNamed [("l", .list [.int 2, .int 3]), ("m", .emptyMap)]).IsDocument :=
    ⟨rfl, by decide, by decide⟩
  have hedits : structuralEdits true base (.ofNamed [("l", .list [.int 2, .int 3]),
      ("m", .emptyMap)]) =
      [⟨.add, [.name "l", .index 0], .int 2⟩, ⟨.add, [.name "l", .index 1], .int 3⟩,
        ⟨.delete, [.name "m", .name "k"], .int 1⟩, ⟨.add, [.name "m"], .emptyMap⟩] := by decide
  have hadditions : sortByPath [⟨"$.l[0]", .int 2⟩, ⟨"$.l[1]", .int 3⟩, ⟨"$.m", .emptyMap⟩] =
      [⟨"$.l[0]", .int 2⟩, ⟨"$.l[1]", .int 3⟩, ⟨"$.m", .emptyMap⟩] := by
    refine List.mergeSort_of_pairwise ?_
    decide
  have hdiff : diff base (.ofNamed [("l", .list [.int 2, .int 3]), ("m", .emptyMap)]) true =
      .ok ⟨[⟨"$.l[0]", .int 2⟩, ⟨"$.l[1]", .int 3⟩, ⟨"$.m", .emptyMap⟩], [],
        [⟨"$.m.k", .int 1⟩]⟩ := by
    rw [diff_eq_ok true hbase hmodified (by decide) (by decide) (by decide) (by decide),
      structuralDiff, hedits]
    show Except.ok (⟨sortByPath [⟨"$.l[0]", .int 2⟩, ⟨"$.l[1]", .int 3⟩, ⟨"$.m", .emptyMap⟩],
      sortByPath [], sortByPath [⟨"$.m.k", .int 1⟩]⟩ : Diff) = _
    rw [hadditions, sortByPath, sortByPath, List.mergeSort_singleton, List.mergeSort_nil]
  obtain ⟨v, hpatch, hrun⟩ := exists_runOperations_of_perm true hbase hmodified (by decide) hdiff
  have hperm : [Operation.write "$.m" .emptyMap, .write "$.l[1]" (.int 3), .remove "$.m.k",
      .write "$.l[0]" (.int 2)].Perm
      [.remove "$.m.k", .write "$.l[0]" (.int 2), .write "$.l[1]" (.int 3),
        .write "$.m" .emptyMap] := by decide
  obtain ⟨w, hw, hreordered⟩ := hrun _ hperm
  exact ⟨v, w, hpatch, hw, hreordered⟩

end ItemDelta
