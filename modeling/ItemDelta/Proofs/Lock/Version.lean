import ItemDelta.Proofs.Diff.Buckets
import ItemDelta.Proofs.Expression.Guard
import ItemDelta.Proofs.Value.Agreement

/-!
# Version checks

An expression that is computed from a snapshot, with the version of the snapshot advanced by one,
demands the version of the snapshot and assigns the next one.

## Main definitions

* `Value.HasVersion` — a document holds an integer as its version, or none.
* `Meaning.admits` — whether the condition of an expression holds of an item.
* `Meaning.Swaps` — an expression compares a version and swaps it for the next one.
* `Attempt` — the expressions that a client may compute from a snapshot.

## Main results

* `Meaning.Swaps.admits_iff` — such a condition holds only of items with the version compared.
* `Attempt.exists_swaps` — all that is computed from a snapshot swaps the version of the snapshot.
-/

namespace ItemDelta

/-! ### Versions -/

/-- The keys that lead to the version. -/
def versionKeys : List Key := [.name "version"]

theorem pathKeys_defaultVersionPath : pathKeys defaultVersionPath = .ok versionKeys := by
  have hlegible : ∀ key ∈ versionKeys, key.isLegible = true := by decide
  exact pathKeys_pathText hlegible

theorem asPath_defaultVersionPath : asPath defaultVersionPath = defaultVersionPath := by decide

/-- A document holds an integer as its version, or it has none. -/
def Value.HasVersion (v : Value) (n : Option Int) : Prop := v.get? versionKeys = n.map .int

/-- The version that comes after another one; the first one is one. -/
def successor : Option Int → Int
  | none => 1
  | some n => n + 1

theorem nextVersion_eq (n : Option Int) : nextVersion (n.map .int) = .ok (.int (successor n)) := by
  cases n <;> rfl

theorem Value.HasVersion.unique {v : Value} {n m : Option Int} (hn : v.HasVersion n)
    (hm : v.HasVersion m) : n = m := by
  have heq : n.map Value.int = m.map Value.int := hn.symm.trans hm
  cases n <;> cases m <;> simp_all

theorem Value.HasVersion.getPath_eq {v : Value} {n : Option Int} (h : v.HasVersion n) :
    getPath v defaultVersionPath = .ok (n.map .int) := by
  rw [getPath, pathKeys_defaultVersionPath]
  exact congrArg Except.ok h

/-! ### Conditions -/

/-- Whether an item meets a demand. Of the comparisons only that for equality is ever met: locks
    ask for no other one. -/
def Demand.holds (item : Value) : Demand → Bool
  | .absent keys => (item.get? keys).isNone
  | .compares keys operator value => operator = "=" && (item.get? keys).any (·.agrees value)

/-- Whether the condition of an expression holds of an item. -/
def Meaning.admits (meaning : Meaning) (item : Value) : Bool :=
  meaning.condition.all (·.holds item)

/-- An expression goes through for one version, which it swaps for the next one. -/
structure Meaning.Swaps (meaning : Meaning) (n : Option Int) : Prop where
  condition : meaning.condition = some (demandOf defaultVersionPath "=" (n.map .int))
  assigns : ∀ w, (versionKeys, w) ∈ meaning.assignments ↔ w = .int (successor n)

theorem Demand.holds_iff {item : Value} {n k : Option Int} (h : item.HasVersion k) :
    (demandOf defaultVersionPath "=" (n.map .int)).holds item = true ↔ k = n := by
  have hkeys : keysOf defaultVersionPath = versionKeys :=
    Builder.keysOf_eq pathKeys_defaultVersionPath
  cases n with
  | none =>
    show ((item.get? (keysOf defaultVersionPath)).isNone) = true ↔ k = none
    rw [hkeys, h]
    cases k <;> simp
  | some n =>
    show (decide ("=" = "=") && (item.get? (keysOf defaultVersionPath)).any
      (·.agrees (.int n))) = true ↔ k = some n
    rw [hkeys, h]
    cases k <;> simp [Value.agrees_int_iff]

/-- The condition of a swap holds only of items with the version that is compared. -/
theorem Meaning.Swaps.admits_iff {meaning : Meaning} {item : Value} {n k : Option Int}
    (h : meaning.Swaps n) (hitem : item.HasVersion k) : meaning.admits item = true ↔ k = n := by
  rw [Meaning.admits, h.condition, Option.all_some]
  exact Demand.holds_iff hitem

/-! ### The edit of a version -/

section Edit

variable {orphans : Bool} {a b w : Value} {n : Option Int}

theorem differs_succ (n : Int) : (Value.int n).differs (.int (n + 1)) = true := by
  have hne : ¬ (Value.int n).agrees (.int (n + 1)) = true := by
    rw [Value.agrees_int_iff]
    omega
  simp [Value.differs, Value.isNumber, hne]

/-- Where the version advances it is added or set, and to nothing but the next one. -/
theorem edit_version_iff (ha : a.IsDocument) (hb : b.IsDocument) (hversion : a.HasVersion n)
    (hnext : b.HasVersion (some (successor n))) :
    ⟨.add, versionKeys, w⟩ ∈ structuralEdits orphans a b ∨
        ⟨.set, versionKeys, w⟩ ∈ structuralEdits orphans a b ↔ w = .int (successor n) := by
  have hshares := sharesContainer_of_isDocument ha hb
  have hget : b.get? versionKeys = some (.int (successor n)) := hnext
  rw [mem_structuralEdits_iff ha.named hb.named hshares,
    mem_structuralEdits_iff ha.named hb.named hshares, isEdit_add_iff, isEdit_set_iff]
  constructor
  · -- Both buckets hold what the modified document holds.
    rintro (⟨-, hw, -⟩ | ⟨-, x, -, hw, -⟩)
    · exact Option.some.inj (hw.symm.trans hget)
    · exact Option.some.inj (hw.symm.trans hget)
  · rintro rfl
    cases n with
    | none =>
      have hnone : a.get? versionKeys = none := hversion
      refine .inl ⟨List.cons_ne_nil _ _, hget, fun _ => rfl, ?_, ?_, ?_⟩
      · intro x hx
        rw [hnone] at hx
        cases hx
      · intro before hbefore hne x y hx hy
        rw [eq_nil_of_prefix_singleton hbefore hne, Value.get?_nil, Option.some.injEq] at hx hy
        subst hx hy
        exact swapsKind_of_sharesContainer hshares
      · intro _ before hbefore hne
        rw [eq_nil_of_prefix_singleton hbefore hne, Value.get?_nil]
        rfl
    | some n =>
      exact .inr ⟨List.cons_ne_nil _ _, .int n, hversion, hget, rfl,
        .inr ⟨rfl, rfl, differs_succ n⟩⟩

end Edit

/-! ### Attempts -/

section Attempts

variable {snapshot : Value} {n : Option Int} {expression : Expression}

theorem expected_eq {base modified condition : Value} {current : Option Value}
    (hversion : base.HasVersion n) (hcurrent : current = none ∨ current = n.map .int) :
    VersionCheck.expected ⟨defaultVersionPath, condition, current, true⟩ base modified =
      .ok (n.map .int) := by
  have hlookup : VersionCheck.expected ⟨defaultVersionPath, condition, none, true⟩ base modified =
      .ok (n.map .int) := by
    simp only [VersionCheck.expected, hversion.getPath_eq]
    cases n <;> rfl
  rcases hcurrent with rfl | rfl
  · exact hlookup
  · cases n with
    | none => exact hlookup
    | some n => rfl

theorem IsGuarded.exists_swaps {base modified lead : Value} {current : Option Value}
    {orphans : Bool} {context : AliasContext}
    (h : IsGuarded base modified ⟨defaultVersionPath, .text "=", current, true⟩ orphans lead
      expression context)
    (hbase : base.IsDocument) (hmodified : modified.IsDocument) (hversion : base.HasVersion n)
    (hnext : modified.HasVersion (some (successor n)))
    (hcurrent : current = none ∨ current = n.map .int) (hlimit : context.counter < counterLimit) :
    ∃ meaning, expression.meaning = some meaning ∧ meaning.Swaps n := by
  have hpath : pathKeys (asPath defaultVersionPath) ≠ .ok [] := by
    rw [asPath_defaultVersionPath, pathKeys_defaultVersionPath]
    exact fun h => List.cons_ne_nil _ _ (Except.ok.inj h)
  obtain ⟨operator, expected, meaning, hoperator, hexpected, hmeaning, hcondition, hassigns⟩ :=
    h.exists_meaning hbase hmodified hpath hlimit
  obtain ⟨heq, -⟩ := comparisonOperator_eq_ok_iff.mp hoperator
  cases heq
  rw [asPath_defaultVersionPath] at hexpected hcondition
  cases hexpected.symm.trans (expected_eq hversion hcurrent)
  refine ⟨meaning, hmeaning, hcondition, fun w => ?_⟩
  rw [hassigns]
  exact edit_version_iff hbase hmodified hversion hnext

/-- The document that holds nothing but a version. -/
def versionOnly (n : Option Int) : Value :=
  .ofNamed (n.toList.map fun version => ("version", .int version))

theorem isDocument_versionOnly (n : Option Int) : (versionOnly n).IsDocument := by
  cases n <;> exact ⟨rfl, rfl, rfl⟩

theorem hasVersion_versionOnly (n : Option Int) : (versionOnly n).HasVersion n := by
  cases n <;> rfl

theorem versionDocument_eq (n : Option Int) :
    versionDocument defaultVersionPath (n.map .int) = .ok (versionOnly n) := by
  cases n with
  | none => rfl
  | some n =>
    show (setPath .emptyMap defaultVersionPath (.int n)).toExcept = _
    rw [setPath, pathKeys_defaultVersionPath]
    rfl

theorem versionStep_eq (hsnapshot : snapshot.IsDocument) (hversion : snapshot.HasVersion n) :
    versionStep snapshot defaultVersionPath none =
      .ok ⟨n.map .int, .int (successor n), true⟩ := by
  have hne : snapshot ≠ .null := by
    obtain ⟨members, rfl⟩ := hsnapshot.exists_eq_map
    exact fun h => by cases h
  rw [versionStep, if_neg hne, hversion.getPath_eq]
  cases n <;> rfl

/-- The expressions that a client may compute from a snapshot: the changes to any document that
    holds the next version, under the lock, or the lock alone. -/
inductive Attempt (snapshot : Value) : Expression → Prop where
  | update {modified version : Value} {orphans : Bool} {expression : Expression}
      {context : AliasContext} : modified.IsDocument →
      nextVersion (snapshot.get? versionKeys) = .ok version →
      modified.get? versionKeys = some version →
      versionedExpression snapshot modified ⟨defaultVersionPath, .text "=", none, true⟩ orphans
        .fresh = .ok expression context →
      context.counter < counterLimit → Attempt snapshot expression
  | lock {orphans : Bool} {expression : Expression} {context : AliasContext} :
      lockExpression snapshot defaultVersionPath none (.text "=") orphans .fresh =
        .ok expression context →
      context.counter < counterLimit → Attempt snapshot expression

/-- Whatever a client computes from a snapshot swaps the version of the snapshot, and no other
    one, for the next. -/
theorem Attempt.exists_swaps (h : Attempt snapshot expression) (hsnapshot : snapshot.IsDocument)
    (hversion : snapshot.HasVersion n) :
    ∃ meaning, expression.meaning = some meaning ∧ meaning.Swaps n := by
  have hsound : AliasContext.fresh.IsSound := (AliasContext.IsReachable.fresh .null 1).isSound
  cases h with
  | update hmodified hnext hheld hrun hlimit =>
    rw [hversion, nextVersion_eq, Except.ok.injEq] at hnext
    subst hnext
    have hguarded := ((leads_versionedExpression snapshot _ _ _ hsound).ok _ _ hrun).2
    exact hguarded.exists_swaps hsnapshot hmodified hversion hheld (.inl rfl) hlimit
  | lock hrun hlimit =>
    obtain ⟨step, before, after, hstep, hbefore, hafter, hguarded⟩ :=
      ((leads_lockExpression snapshot _ none _ _ hsound).ok _ _ hrun).2
    rw [asPath_defaultVersionPath] at hstep hbefore hafter hguarded
    cases hstep.symm.trans (versionStep_eq hsnapshot hversion)
    cases hbefore.symm.trans (versionDocument_eq n)
    cases hafter.symm.trans (versionDocument_eq (some (successor n)))
    exact hguarded.exists_swaps (isDocument_versionOnly n) (isDocument_versionOnly _)
      (hasVersion_versionOnly n) (hasVersion_versionOnly _) (.inr rfl) hlimit

end Attempts

end ItemDelta
