import ItemDelta.Proofs.Diff.Buckets
import ItemDelta.Proofs.Diff.Origin
import ItemDelta.Proofs.Expression.Decoding
import ItemDelta.Proofs.Expression.Success

/-!
# Expressions that are refused

Once the diff of two documents is there, its expression is refused for two reasons only: a name on
the way to a change is longer than the store takes, or the counter has come to a number that is too
long to be written. In the first case the fault names the first such name, in the order in which the
clauses are compiled; the second case does not occur while enough numbers are left.

## Main results

* `updateExpression_settles` — what an update expression is refused for, if anything.
* `updateExpression_eq_error_iff` — when it is refused for a name.
-/

namespace ItemDelta

section Update

variable {base modified : Value} {orphans supportSets : Bool} {nodes : Partition}
  {context : AliasContext}

/-- An update expression is refused for the first name that is too long, or where its registrations
    give up. -/
theorem updateExpression_settles {affords : Nat → AliasState → Prop}
    {givesUp : Error → AliasState → Prop}
    (hsustains : AliasState.Sustains context.lead affords givesUp)
    (hlead : checkLead (effectiveLead .null context) = .ok ())
    (hnodes : partition base modified orphans supportSets = .ok nodes)
    (hstart : affords nodes.cost (.start context)) :
    ((∃ expression rest, updateExpression base modified orphans supportSets context =
        .ok expression rest) → refusal? nodes.names = none) ∧
    ∀ fault rest, updateExpression base modified orphans supportSets context = .error fault rest →
      refusal? nodes.names = some fault ∨ ∃ state, givesUp fault state ∧ state.context = rest := by
  -- The paths of a diff can be read back, so no step is refused for the text of a path.
  have hpaths := exists_pathKeys_of_partition hnodes
  have hreadable : ∀ step ∈ nodes.steps, step.IsReadable := by
    rw [Partition.steps]
    refine List.forall_mem_cons.mpr ⟨fun node hnode => hpaths node ?_,
      List.forall_mem_cons.mpr ⟨fun node hnode => hpaths node ?_,
        List.forall_mem_singleton.mpr fun node hnode => hpaths node ?_⟩⟩
    · exact List.mem_append_left _ (List.mem_append_left _ hnode)
    · exact List.mem_append_left _ (List.mem_append_right _ hnode)
    · exact List.mem_append_right _ hnode
  have hbuilder : (Builder.start context .null).Affords .null affords (nodes.cost + 0) :=
    ⟨rfl, hstart⟩
  have hsettles := settles_addPartition hsustains hlead hreadable hbuilder
  rw [updateExpression_eq_build hnodes, build]
  cases hrun : Builder.addPartition nodes (.start context .null) with
  | ok result b =>
    constructor
    · exact fun _ => (hsettles.ok result b hrun).1
    · rintro _ _ ⟨⟩
  | error refusal b =>
    constructor
    · rintro ⟨_, _, ⟨⟩⟩
    · rintro _ _ ⟨⟩
      exact (hsettles.error refusal b hrun).imp_right fun hgivesUp => ⟨b.aliasing, hgivesUp, rfl⟩

theorem refusal?_eq_none_iff {names : List String} :
    refusal? names = none ↔ ∀ name ∈ names, ¬maxNameLength < name.length := by
  rw [refusal?, Option.map_eq_none_iff, List.find?_eq_none]
  simp only [decide_eq_true_eq]

theorem refusal?_eq_some_iff {names : List String} {fault : Error} :
    refusal? names = some fault ↔
      ∃ name, names.find? (fun name => maxNameLength < name.length) = some name ∧
        fault = .nameTooLong name (integerText maxNameLength) := by
  rw [refusal?, Option.map_eq_some_iff]
  simp only [eq_comm]

/-- An update expression is refused if a name on the way to a change is too long. It is refused for
    the first such name, and for nothing else but a number that is too long to be written, where the
    counter has come to that. If all numbers can be written that its registrations can need, then it
    is refused just if a name on the way to a change is too long, and for the first such name. -/
theorem updateExpression_eq_error_iff
    (hlead : checkLead (effectiveLead .null context) = .ok ())
    (hnodes : partition base modified orphans supportSets = .ok nodes) :
    ((∃ name ∈ nodes.names, maxNameLength < name.length) →
      ∃ fault rest, updateExpression base modified orphans supportSets context =
        .error fault rest) ∧
    (∀ fault rest, updateExpression base modified orphans supportSets context =
        .error fault rest →
      (∃ name, nodes.names.find? (fun name => maxNameLength < name.length) = some name ∧
        fault = .nameTooLong name (integerText maxNameLength)) ∨
      fault = .tooManyDigits none ∧ isLongInteger rest.counter = true) ∧
    ((∀ k ≤ numbersFor nodes.cost, isLongInteger (context.counter + (k : Nat)) = false) →
      ((∃ fault rest, updateExpression base modified orphans supportSets context =
        .error fault rest) ↔ ∃ name ∈ nodes.names, maxNameLength < name.length) ∧
      ∀ fault rest, updateExpression base modified orphans supportSets context =
          .error fault rest →
        ∃ name, nodes.names.find? (fun name => maxNameLength < name.length) = some name ∧
          fault = .nameTooLong name (integerText maxNameLength)) := by
  -- Whatever the counter is, a registration gives up only at a number that cannot be written.
  obtain ⟨hok, herror⟩ := updateExpression_settles (AliasState.sustains_isLed context.lead) hlead
    hnodes rfl
  have hlong : (∃ name ∈ nodes.names, maxNameLength < name.length) →
      ∃ fault rest, updateExpression base modified orphans supportSets context =
        .error fault rest := by
    rintro ⟨name, hname, hlong⟩
    cases hrun : updateExpression base modified orphans supportSets context with
    | ok expression rest =>
      exact absurd hlong (refusal?_eq_none_iff.mp (hok ⟨expression, rest, hrun⟩) name hname)
    | error fault rest => exact ⟨fault, rest, rfl⟩
  refine ⟨hlong, fun fault rest hrun => ?_, fun hwritten => ?_⟩
  · rcases herror fault rest hrun with hrefusal | ⟨state, hrunsOut, rfl⟩
    · exact .inl (refusal?_eq_some_iff.mp hrefusal)
    · exact .inr hrunsOut
  · -- While all numbers can be written, no registration gives up.
    obtain ⟨-, herror⟩ := updateExpression_settles
      (AliasState.sustains_affords ⟨context.lead, context.counter, nodes.cost⟩) hlead hnodes
      (AliasState.affords_start hwritten)
    have hfault : ∀ fault rest, updateExpression base modified orphans supportSets context =
        .error fault rest → ∃ name, nodes.names.find? (fun name => maxNameLength < name.length) =
          some name ∧ fault = .nameTooLong name (integerText maxNameLength) :=
      fun fault rest hrun => refusal?_eq_some_iff.mp
        ((herror fault rest hrun).resolve_right fun ⟨_, hgivesUp, _⟩ => hgivesUp)
    refine ⟨⟨fun ⟨fault, rest, hrun⟩ => ?_, hlong⟩, hfault⟩
    obtain ⟨name, hfind, -⟩ := hfault fault rest hrun
    have hname := List.find?_some hfind
    exact ⟨name, List.mem_of_find?_eq_some hfind, of_decide_eq_true hname⟩

end Update

/-- A name of 256 characters is refused on the way to a change, and not inside of a new value. -/
theorem updateExpression_of_long_name :
    let long := String.ofList (List.replicate 256 'x')
    let modified : Value := .ofNamed [("a", .ofNamed [(long, .int 1)])]
    (∃ rest, updateExpression .emptyMap modified true false .fresh =
      .error (.nameTooLong long "255") rest) ∧
    ∃ expression rest, updateExpression .emptyMap modified false false .fresh =
      .ok expression rest := by
  intro long modified
  have hlength : maxNameLength < long.length := by
    rw [String.length_ofList, List.length_replicate]
    decide
  have hlong : (Key.name long).isLegible = true := by
    rw [Key.isLegible, String.toList_ofList]
    decide +kernel
  have hlegible : modified.everywhere Value.hasLegibleNames = true := by
    have ha : (Key.name "a").isLegible = true := by decide
    simp [modified, Value.ofNamed, Value.everywhere, Value.everywhereMembers,
      Value.hasLegibleNames, ha, hlong]
  have hbase : Value.emptyMap.IsDiffable := ⟨⟨rfl, by decide, by decide⟩, by decide, by decide⟩
  have hmodified : modified.IsDiffable := ⟨⟨rfl, rfl, rfl⟩, hlegible, rfl⟩
  have hlead : checkLead (effectiveLead .null .fresh) = .ok () := rfl
  have hwritten : ∀ keys value, (∀ key ∈ keys, key.isLegible = true) → keys.length ≤ 2 →
      ∀ k ≤ numbersFor (⟨[Node.along keys value], [], []⟩ : Partition).cost,
        isLongInteger (AliasContext.fresh.counter + (k : Nat)) = false := by
    intro keys value hlegible hlength
    apply AliasState.written_of_le
    have hcost := Partition.cost_singleton hlegible value
    have hroom : 3 ≤ Nat.pow 2 65 := by decide
    omega
  constructor
  · have hedits : structuralEdits true .emptyMap modified =
        [⟨.add, [.name "a", .name long], .int 1⟩] := rfl
    have hlegible : ∀ key ∈ [Key.name "a", .name long], key.isLegible = true :=
      List.forall_mem_cons.mpr ⟨by decide, by simpa using hlong⟩
    obtain ⟨hrefused, hfault⟩ := (updateExpression_eq_error_iff hlead
      (partition_of_edit hbase hmodified hedits (by decide))).2.2
      (hwritten _ _ hlegible (Nat.le_refl 2))
    rw [Edit.node, Partition.names_singleton hlegible] at hrefused hfault
    obtain ⟨fault, rest, hrun⟩ :=
      hrefused.mpr ⟨long, List.mem_cons_of_mem "a" List.mem_cons_self, hlength⟩
    obtain ⟨name, hname, rfl⟩ := hfault fault rest hrun
    have hfind : ["a", long].find? (fun name => maxNameLength < name.length) = some long := by
      rw [List.find?_cons_of_neg (by decide)]
      exact List.find?_cons_of_pos (decide_eq_true hlength)
    obtain rfl : long = name := Option.some.inj (hfind.symm.trans hname)
    exact ⟨rest, hrun⟩
  · have hedits : structuralEdits false .emptyMap modified =
        [⟨.add, [.name "a"], .ofNamed [(long, .int 1)]⟩] := rfl
    have hlegible : ∀ key ∈ [Key.name "a"], key.isLegible = true := by decide
    obtain ⟨hrefused, -⟩ := (updateExpression_eq_error_iff hlead
      (partition_of_edit hbase hmodified hedits (by decide))).2.2
      (hwritten _ _ hlegible (Nat.le_succ 1))
    rw [Edit.node, Partition.names_singleton hlegible] at hrefused
    cases hrun : updateExpression .emptyMap modified false false .fresh with
    | ok expression rest => exact ⟨expression, rest, rfl⟩
    | error fault rest =>
      obtain ⟨name, hname, hlong⟩ := hrefused.mp ⟨fault, rest, hrun⟩
      obtain rfl : name = "a" := List.mem_singleton.mp hname
      exact absurd hlong (by decide)

/-- No name is too long for the store, but the second one needs a number, and that is too long to be
    written. Under a prefix that is a list, no name can be noted at all. -/
theorem updateExpression_out_of_numbers :
    let modified : Value := .ofNamed [("aB", .ofNamed [("a_b", .int 1)])]
    (∃ nodes, partition .emptyMap modified true false = .ok nodes ∧
      ∀ name ∈ nodes.names, ¬maxNameLength < name.length) ∧
    (∃ rest, updateExpression .emptyMap modified true false ⟨.null, firstLongInteger, []⟩ =
      .error (.tooManyDigits none) rest) ∧
    ∃ rest, updateExpression .emptyMap modified true false ⟨.list [.int 1], 1, []⟩ =
      .error .wrongKind rest := by
  intro modified
  have hbase : Value.emptyMap.IsDiffable := ⟨⟨rfl, by decide, by decide⟩, by decide, by decide⟩
  have hmodified : modified.IsDiffable := ⟨⟨rfl, rfl, rfl⟩, by decide, rfl⟩
  let nodes : Partition := ⟨[Node.along [.name "aB", .name "a_b"] (.int 1)], [], []⟩
  have hedits : structuralEdits true .emptyMap modified =
      [⟨.add, [.name "aB", .name "a_b"], .int 1⟩] := rfl
  have hnodes : partition .emptyMap modified true false = .ok nodes :=
    partition_of_edit hbase hmodified hedits (by decide)
  rw [updateExpression_eq_build hnodes, updateExpression_eq_build hnodes]
  refine ⟨⟨nodes, hnodes, by decide +kernel⟩, ?_, ?_⟩
  · exact exists_error_of_fault? (by decide +kernel)
  · exact exists_error_of_fault? (by decide +kernel)

end ItemDelta
