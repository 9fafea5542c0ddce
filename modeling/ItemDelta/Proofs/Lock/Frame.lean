import ItemDelta.Proofs.Diff.Patching
import ItemDelta.Proofs.Lock.Edits
import ItemDelta.Proofs.Path.Lens

/-!
# What a lock leaves alone

A lock assigns the version and nothing else, with one exception: where there is no version yet, and
orphans are not asked for, it assigns the outermost map on the way to the version, as if the map
were missing too.

## Main definitions

* `Meaning.applyTo` — a document after what an expression assigns and removes.

## Main results

* `exists_runEdits_lockEdits` — what the edits of a lock leave alone.
* `exists_applyTo_lockExpression` — what the expression of a lock leaves alone.
-/

namespace ItemDelta

/-- A document after what an expression assigns and then removes. -/
def Meaning.applyTo (meaning : Meaning) (v : Value) : Except Error Value :=
  (writeNodes v (meaning.assignments.map fun target => Node.along target.1 target.2)).bind fun w =>
    removeNodes w (meaning.removals.map fun keys => Node.along keys .null)

section Edits

variable {names : List String} {edits : List Edit}

/-- Applying such an expression is running its edits. -/
theorem applyTo_eq_runEdits {meaning : Meaning}
    (hassignments : meaning.assignments = edits.map fun c => (c.keys, c.value))
    (hremovals : meaning.removals = []) (hwrites : ∀ c ∈ edits, c.bucket ≠ .delete)
    (hlegible : ∀ c ∈ edits, ∀ key ∈ c.keys, key.isLegible = true) (v : Value) :
    meaning.applyTo v = runEdits edits v := by
  have hnodes : (meaning.assignments.map fun target => Node.along target.1 target.2) =
      edits.map Edit.node := by
    rw [hassignments, List.map_map]
    rfl
  rw [Meaning.applyTo, hnodes, hremovals, writeNodes_map_node hwrites hlegible]
  cases runEdits edits v <;> rfl

theorem runEdits_singleton {bucket : Bucket} (hbucket : bucket ≠ .delete) (keys : List Key)
    (w v : Value) : runEdits [⟨bucket, keys, w⟩] v = (v.assign keys w).toExcept := by
  rw [runEdits_cons, Edit.run, if_neg hbucket]
  cases (v.assign keys w).toExcept <;> rfl

/-- The edit of the outermost map drops whatever else is in that map, and leaves alone what is
    not. -/
theorem exists_assign_outermost {name : String} {members : Members} (version : Value) :
    ∃ patched, ((Value.map members).assign [.name name] (nest names version)).toExcept =
        .ok patched ∧
      ∀ place w, Apart ((name :: names).map .name) place →
        (Value.map members).get? place = some w →
        (patched.get? place = some w ↔ ¬[Key.name name] <+: place) := by
  have habove : (Value.map members).MapsAbove ([name].map .name) := by
    intro before hbefore hstrict u hu
    rw [eq_nil_of_prefix_singleton hbefore hstrict, Value.get?_nil, Option.some.injEq] at hu
    rw [← hu]
    rfl
  obtain ⟨patched, hassign, hself, hother⟩ :=
    exists_assign_names rfl (List.cons_ne_nil name []) habove (nest names version)
  refine ⟨patched, hassign, fun place w hplace hw => ?_⟩
  by_cases hunder : [Key.name name] <+: place
  · obtain ⟨rest, rfl⟩ := hunder
    have hgone : patched.get? ([Key.name name] ++ rest) = none := by
      rw [Value.get?_append]
      rw [List.map_cons, List.map_nil] at hself
      rw [hself, Option.bind_some]
      exact get?_nest_of_apart (apart_cons_iff.mp hplace)
    rw [hgone]
    simp
  · have hapart : Apart ([name].map .name) place :=
      ⟨hunder, fun hbefore => hplace.2 (hbefore.trans (by simp))⟩
    rw [hother place hapart, hw]
    simp [hunder]

/-- A lock changes nothing apart from the version, unless it assigns the outermost map. -/
theorem exists_runEdits_lockEdits (orphans : Bool) (hne : names ≠ []) {members : Members}
    (habove : (Value.map members).MapsAbove (names.map .name)) (current : Option Value)
    (version : Value) :
    ∃ patched, runEdits (lockEdits orphans names current version) (.map members) = .ok patched ∧
      ∀ place w, Apart (names.map .name) place → (Value.map members).get? place = some w →
        (patched.get? place = some w ↔
          ¬(orphans = false ∧ current = none ∧ (names.take 1).map .name <+: place)) := by
  -- A write to the place of the version itself leaves all else alone.
  have hwrite : ∃ patched, ((Value.map members).assign (names.map .name) version).toExcept =
      .ok patched ∧ ∀ place w, Apart (names.map .name) place →
        (Value.map members).get? place = some w → patched.get? place = some w := by
    obtain ⟨written, hassign, -, hother⟩ := exists_assign_names rfl hne habove version
    exact ⟨written, hassign, fun place w hplace hw => (hother place hplace).trans hw⟩
  obtain ⟨written, hassign, hkept⟩ := hwrite
  cases current with
  | some v =>
    rw [lockEdits]
    cases v.differs version with
    | true =>
      rw [if_pos rfl, runEdits_singleton (by decide)]
      exact ⟨written, hassign, fun place w hplace hw => by simp [hkept place w hplace hw]⟩
    | false =>
      refine ⟨.map members, rfl, fun place w hplace hw => by simp [hw]⟩
  | none =>
    rw [lockEdits]
    cases orphans with
    | true =>
      rw [if_pos rfl, runEdits_singleton (by decide)]
      exact ⟨written, hassign, fun place w hplace hw => by simp [hkept place w hplace hw]⟩
    | false =>
      obtain ⟨name, names, rfl⟩ := List.exists_cons_of_ne_nil hne
      rw [if_neg (by decide), runEdits_singleton (by decide)]
      obtain ⟨patched, hpatched, hiff⟩ := exists_assign_outermost version
      exact ⟨patched, hpatched, fun place w hplace hw => by simpa using hiff place w hplace hw⟩

end Edits

/-- What a lock assigns leaves every value alone that is neither on the way to the version nor at
    or below it, unless there is no version yet, orphans are not asked for, and the value is in the
    outermost map on the way: then it is lost. -/
theorem exists_applyTo_lockExpression {base condition : Value} {orphans : Bool}
    {names : List String} {path : String} {expression : Expression} {start context : AliasContext}
    (hcontext : start.IsReachable) (hbase : base.IsDocument)
    (hpath : pathKeys (asPath path) = .ok (names.map .name)) (hne : names ≠ [])
    (habove : base.MapsAbove (names.map .name))
    (hrun : lockExpression base path none condition orphans start = .ok expression context)
    (hlimit : context.counter < counterLimit) :
    ∃ meaning patched, expression.meaning = some meaning ∧ meaning.applyTo base = .ok patched ∧
      ∀ place w, Apart (names.map .name) place → base.get? place = some w →
        (patched.get? place = some w ↔ ¬(orphans = false ∧
          (base.get? (names.map .name) = none ∨ base.get? (names.map .name) = some .null) ∧
          (names.take 1).map .name <+: place)) := by
  obtain ⟨version, meaning, -, hmeaning, hassignments, hremovals, hlegible⟩ :=
    exists_lock_meaning hcontext hbase hpath hne hrun hlimit
  have happly := applyTo_eq_runEdits hassignments hremovals
    (fun c => bucket_ne_delete_of_mem_lockEdits) hlegible base
  have hknown : knownVersion base names = none ↔
      base.get? (names.map .name) = none ∨ base.get? (names.map .name) = some .null := by
    rw [knownVersion]
    split <;> simp_all
  obtain ⟨members, rfl⟩ := hbase.exists_eq_map
  obtain ⟨patched, hpatched, hiff⟩ := exists_runEdits_lockEdits orphans hne habove
    (knownVersion (.map members) names) version
  refine ⟨meaning, patched, hmeaning, happly.trans hpatched, fun place w hplace hw => ?_⟩
  rw [hiff place w hplace hw, hknown]

/-- The first version below a map that is there already: the other member of the map is lost. -/
theorem applyTo_lockExpression_of_sibling :
    let base : Value := .ofNamed [("meta", .ofNamed [("name", .text "x")])]
    ∃ expression context meaning patched,
      lockExpression base "meta.version" none (.text "=") false .fresh =
        .ok expression context ∧
      expression.meaning = some meaning ∧ meaning.applyTo base = .ok patched ∧
      base.get? [.name "meta", .name "name"] = some (.text "x") ∧
      patched.get? [.name "meta", .name "name"] ≠ some (.text "x") := by
  intro base
  have hpath : pathKeys (asPath "meta.version") = .ok (["meta", "version"].map .name) := by
    have htext : asPath "meta.version" = pathText (["meta", "version"].map .name) := by decide
    rw [htext, pathKeys_pathText (by decide)]
  have hne : ["meta", "version"] ≠ [] := List.cons_ne_nil _ _
  -- The lock is compiled from these two documents.
  have hstep : versionStep base (asPath "meta.version") none = .ok ⟨none, .int 1, true⟩ := by
    rw [versionStep, if_neg (by decide), getPath_eq_ok hpath]
    rfl
  have hafter := versionDocument_eq_nest hpath hne (.int 1)
  have hnodes : partition (orEmpty .emptyMap) (orEmpty (nest ["meta", "version"] (.int 1))) false
      false = .ok ⟨[Node.along [.name "meta"] (nest ["version"] (.int 1))], [], []⟩ :=
    partition_emptyMap_nest rfl (by decide) rfl
  have hbuild : lockExpression base "meta.version" none (.text "=") false .fresh = _ :=
    (lockExpression_eq_versionedExpression hstep rfl hafter _).trans
      (versionedExpression_eq_build (comparisonOperator_eq_ok_iff.mpr ⟨rfl, by decide⟩) hnodes _)
  have hsucceeds : succeeds (lockExpression base "meta.version" none (.text "=") false) .fresh =
      true := by
    rw [succeeds, hbuild]
    decide +kernel
  have hlimit : (stateAfter (lockExpression base "meta.version" none (.text "=") false)
      .fresh).counter < counterLimit := by
    rw [stateAfter, hbuild]
    decide +kernel
  have habove : base.MapsAbove (["meta", "version"].map .name) := by
    intro before hbefore hstrict u hu
    obtain ⟨count, rfl⟩ : ∃ count, before = (["meta", "version"].map Key.name).take count :=
      ⟨_, List.prefix_iff_eq_take.mp hbefore⟩
    obtain _ | _ | count := count
    · cases hu
      rfl
    · cases hu
      rfl
    · simp at hstrict
  obtain ⟨expression, hrun⟩ := exists_ok_of_succeeds hsucceeds
  obtain ⟨meaning, patched, hmeaning, hpatched, hiff⟩ := exists_applyTo_lockExpression
    (.fresh .null 1) ⟨rfl, by decide, by decide⟩ hpath hne habove hrun hlimit
  have hread : base.get? [.name "meta", .name "name"] = some (.text "x") := rfl
  have hapart : Apart (["meta", "version"].map .name) [.name "meta", .name "name"] :=
    ⟨by decide, by decide⟩
  refine ⟨expression, _, meaning, patched, hrun, hmeaning, hpatched, hread, fun hkept => ?_⟩
  exact (hiff _ _ hapart hread).mp hkept ⟨rfl, .inl rfl, by decide⟩

end ItemDelta
