import ItemDelta.Proofs.Diff.Patching
import ItemDelta.Proofs.Expression.Success
import ItemDelta.Proofs.Expression.Versioned
import ItemDelta.Proofs.Lock.Edits
import ItemDelta.Proofs.Lock.Faults
import ItemDelta.Proofs.Lock.Version
import ItemDelta.Proofs.Path.Inverse

/-!
# Locks with automatic versions

Without a new version of its own, a lock compares and swaps: it counts the version of the base
document on by one, under a condition on that version, or it makes the first version where there is
none. Whatever else the base document holds is not even looked at.

## Main results

* `versionStep_automatic` — the step from the version of a base document.
* `exists_lockExpression_of_nodes` — a lock that assigns a version or nothing is compiled, and what
  it says.
* `exists_lockExpression_of_number` — a lock on a number of any kind.
* `exists_ambiguousVersion_iff` — when a lock refuses the current version.
* `lockExpression_of_hasLongInteger` — where even the refusal cannot be written.
* `lockExpression_compares_and_swaps` — all that a lock with an automatic version does.
-/

namespace ItemDelta

section Step

variable {base : Value} {path : String} {keys : List Key}

/-- Without a version of its own, a lock goes from the version at its path to the next one. An
    absent version and a null one are no version to compare with. -/
theorem versionStep_automatic (hpath : pathKeys path = .ok keys) (hne : keys ≠ []) :
    versionStep base path none = (nextVersion (base.get? keys)).map fun version =>
      ⟨if base.get? keys = some .null then none else base.get? keys, version, true⟩ := by
  by_cases hbase : base = .null
  · obtain ⟨key, keys, rfl⟩ := List.exists_cons_of_ne_nil hne
    have hnone : base.get? (key :: keys) = none := by
      rw [hbase, Value.get?_cons]
      cases key <;> rfl
    rw [hnone, versionStep, if_pos hbase]
    rfl
  · rw [versionStep, if_neg hbase, getPath_eq_ok hpath]
    cases hversion : nextVersion (base.get? keys) <;>
      simp only [bind, Except.bind, hversion] <;> rfl

/-- A version that is no number is refused; if it holds an integer too long to be written, then
    the refusal cannot be written either. -/
theorem nextVersion_of_not_isNumber {version : Value} (hnull : version ≠ .null)
    (hnumber : version.isNumber = false) :
    nextVersion (some version) =
      if version.hasLongInteger then .error (.tooManyDigits none)
      else .error (.ambiguousVersion version) := by
  cases version with
  | null => exact absurd rfl hnull
  | int n => cases hnumber
  | float x => cases hnumber
  | decimal d => cases hnumber
  | _ => rfl

theorem eq_of_nextVersion_ambiguous {current : Option Value} {version : Value}
    (h : nextVersion current = .error (.ambiguousVersion version)) :
    current = some version ∧ version ≠ .null ∧ version.isNumber = false ∧
      version.hasLongInteger = false := by
  cases current with
  | none => cases h
  | some v =>
    cases v with
    | null => cases h
    | int n => cases h
    | float x => cases h
    | decimal d =>
      rw [nextVersion] at h
      split at h <;> cases h
    | _ =>
      simp only [nextVersion] at h
      split at h
      · cases h
      · rename_i hshort
        cases h
        exact ⟨rfl, by simp, rfl, Bool.eq_false_iff.mpr hshort⟩

/-- What a lock does after the step to the next version refuses no version any more. -/
theorem exists_error_lockExpression_iff {condition version : Value} {orphans : Bool}
    {context : AliasContext} :
    (∃ final, lockExpression base path none condition orphans context =
        .error (.ambiguousVersion version) final) ↔
      versionStep base (asPath path) none = .error (.ambiguousVersion version) := by
  -- Whatever comes after the step has faults of its own.
  have hrest : ∀ step : VersionStep, FailsAs Error.IsOther (do
      let before ← ofExcept (versionDocument (asPath path) step.current)
      let after ← ofExcept (versionDocument (asPath path) (some step.new))
      versionedExpression before after
        ⟨asPath path, condition, step.current, step.expectCurrent⟩ orphans) := by
    intro step
    refine .bind (.ofExcept (faultsAs_versionDocument _ _)) fun before => ?_
    refine .bind (.ofExcept (faultsAs_versionDocument _ _)) fun after => ?_
    exact failsAs_versionedExpression _ _ _ _
  cases hstep : versionStep base (asPath path) none with
  | ok step =>
    refine iff_of_false ?_ nofun
    rintro ⟨final, hrun⟩
    rw [lockExpression, ofExcept_bind_of_ok hstep] at hrun
    exact (hrest step).of_eq context _ _ hrun version rfl
  | error fault =>
    rw [lockExpression_eq_error hstep]
    constructor
    · rintro ⟨final, hrun⟩
      cases hrun
      rfl
    · intro h
      cases h
      exact ⟨context, rfl⟩

end Step

/-! ### Locks with one edit -/

/-- A path, canonical or with points between names, that leads along a member name and further
    keys, as many as the machine can count. None of the names is too long or ends in an overlooked
    line feed. -/
structure IsVersionPath (path name : String) (rest : List Key) : Prop where
  keys : pathKeys (asPath path) = .ok (.name name :: rest)
  fits : ∀ key ∈ Key.name name :: rest, key.fitsStore = true
  feedless : ∀ key ∈ Key.name name :: rest, ¬key.EndsInFeed
  countable : (Key.name name :: rest).length ≤ Value.maxListLength

theorem IsVersionPath.isLegible {path name : String} {rest : List Key}
    (h : IsVersionPath path name rest) : ∀ key ∈ Key.name name :: rest, key.isLegible = true :=
  (forall_isLegible_iff (isLegible_of_pathKeys h.keys)).mpr h.feedless

/-- Keys that a path can tell are read from their own text. -/
theorem isVersionPath_of_text {path name : String} {rest : List Key}
    (htext : asPath path = pathText (.name name :: rest))
    (hkeys : ∀ key ∈ Key.name name :: rest, key.isLegible = true ∧ key.fitsStore = true)
    (hcount : (Key.name name :: rest).length ≤ Value.maxListLength) :
    IsVersionPath path name rest := by
  have hlegible := fun key hkey => (hkeys key hkey).1
  refine ⟨?_, fun key hkey => (hkeys key hkey).2, ?_, hcount⟩
  · rw [htext, pathKeys_pathText hlegible]
  · exact (forall_isLegible_iff fun position hposition => hlegible _ hposition).mp hlegible

section Edit

variable {base before after lead version : Value} {path name operator : String}
  {keys rest : List Key} {orphans : Bool} {current : Option Value} {c : Edit}

/-- At most one assignment, and nothing else. -/
def Partition.assigning (keys : List Key) (v : Option Value) : Partition :=
  ⟨(v.map (Node.along keys)).toList, [], []⟩

theorem meaning_assigning (hlegible : ∀ key ∈ keys, key.isLegible = true) (v : Option Value) :
    (Request.ofSteps (Partition.assigning keys v).steps).meaning.update =
      (v.map fun version => UpdateClause.set [(keys, version)]).toList := by
  cases v <;>
    simp [Partition.assigning, Partition.steps, Request.ofSteps, BuilderStep.addTo, Request.empty,
      Request.meaning, UpdateClause.ofItems, Node.target_along hlegible]

theorem isAliasable_of_mem_assigning (hlegible : ∀ key ∈ keys, key.isLegible = true)
    (hfits : ∀ key ∈ keys, key.fitsStore = true) (hpath : pathKeys path = .ok keys)
    (hlead : lead.IsLead) {v : Option Value} {step : BuilderStep} (hstep : step ∈
      (Partition.assigning keys v).guardedSteps path operator current lead) :
    step.IsAliasable := by
  simp only [Partition.assigning, Partition.guardedSteps, Partition.steps, List.cons_append,
    List.nil_append, List.mem_cons, List.not_mem_nil, or_false] at hstep
  rcases hstep with rfl | rfl | rfl | rfl
  · intro n hn
    obtain ⟨version, -, rfl⟩ := Option.map_eq_some_iff.mp (Option.mem_toList.mp hn)
    exact ⟨keys, pathKeys_pathText hlegible, hfits⟩
  · simp [BuilderStep.IsAliasable]
  · simp [BuilderStep.IsAliasable]
  · exact ⟨⟨keys, hpath, hfits⟩, hlead⟩

/-- The names are registered for the update and for the condition, and so are the two values. -/
theorem cost_assigning (hlegible : ∀ key ∈ keys, key.isLegible = true)
    (hpath : pathKeys path = .ok keys) (v : Option Value) :
    (((Partition.assigning keys v).guardedSteps path operator current lead).map
      BuilderStep.cost).sum ≤ 2 * (keys.length + 1) := by
  have hupdate : (((v.map (Node.along keys)).toList.map fun node => pathCost node.path).sum) ≤
      keys.length + 1 := by
    cases v with
    | none => exact Nat.zero_le _
    | some v => simp [pathCost_pathText hlegible]
  simp only [Partition.assigning, Partition.guardedSteps, Partition.steps, List.cons_append,
    List.nil_append, List.map_cons, List.map_nil, List.sum_cons, List.sum_nil, BuilderStep.cost,
    pathCost, Builder.keysOf_eq hpath] at hupdate ⊢
  omega

theorem isLead_conditionLead (hlead : checkLead lead = .ok ()) (counter : Int) :
    (conditionLead ⟨lead, counter, []⟩).IsLead := by
  rw [conditionLead]
  by_cases hnull : lead = .null
  · rw [hnull]
    exact isLead_text "expected"
  · rw [leadOr_of_ne_null hnull]
    exact ⟨hnull, hlead⟩

/-- The version that a lock expects is the one that it knows of. -/
theorem expected_of_current (hpath : pathKeys (asPath path) = .ok keys)
    (hknown : current = none → before.get? keys = none) :
    VersionCheck.expected ⟨asPath path, .text operator, current, true⟩ before after =
      .ok current := by
  cases current with
  | none => exact VersionCheck.expected_of_known_eq_none _ hpath (hknown rfl)
  | some v => exact VersionCheck.expected_of_known_eq_some _ hpath rfl

/-- A lock that assigns the next version or nothing is compiled. Its expression assigns the same,
    and demands the version that the lock knows of. -/
theorem exists_lockExpression_of_nodes (hpath : IsVersionPath path name rest)
    (hoperator : operator ∈ comparisonOperators) (hlead : checkLead lead = .ok ())
    (hstep : versionStep base (asPath path) none = .ok ⟨current, version, true⟩)
    (hbefore : versionDocument (asPath path) current = .ok before)
    (hafter : versionDocument (asPath path) (some version) = .ok after)
    (hbase : before.IsDiffable) (hmodified : after.IsDiffable) {v : Option Value}
    (hnodes : partition before after orphans false =
      .ok (Partition.assigning (.name name :: rest) v))
    (hknown : current = none → before.get? (.name name :: rest) = none) :
    ∃ expression context,
      lockExpression base path none (.text operator) orphans ⟨lead, 1, []⟩ =
        .ok expression context ∧
      expression.meaning = some
        ⟨(v.map fun version => UpdateClause.set [(.name name :: rest, version)]).toList,
          some (demandOf (asPath path) operator current)⟩ := by
  have hlegible := hpath.isLegible
  have hagain : pathKeys (asPath (asPath path)) = .ok (.name name :: rest) :=
    (asPath_asPath path).symm ▸ hpath.keys
  have hnodes' : partition (orEmpty before) (orEmpty after) orphans false =
      .ok (Partition.assigning (.name name :: rest) v) := by
    rw [hbase.document.orEmpty_eq, hmodified.document.orEmpty_eq, hnodes]
  let check : VersionCheck := ⟨asPath path, .text operator, current, true⟩
  have hroot : pathKeys (asPath check.path) ≠ .ok [] :=
    fun hroot => List.cons_ne_nil _ _ (Except.ok.inj (hagain.symm.trans hroot))
  have hexpected : VersionCheck.expected { check with path := asPath check.path } (orEmpty before)
      (orEmpty after) = .ok current := by
    rw [hbase.document.orEmpty_eq]
    exact expected_of_current hagain hknown
  have hsteps : ∀ step ∈ (Partition.assigning (.name name :: rest) v).guardedSteps
      (asPath check.path) operator current (conditionLead ⟨lead, 1, []⟩), step.IsAliasable :=
    fun step => isAliasable_of_mem_assigning hlegible hpath.fits hagain
      (isLead_conditionLead hlead 1)
  have hcount := Nat.mul_le_mul_left 2 (Nat.succ_le_succ hpath.countable)
  have hcost : (((Partition.assigning (.name name :: rest) v).guardedSteps
      (asPath check.path) operator current (conditionLead ⟨lead, 1, []⟩)).map
        BuilderStep.cost).sum ≤ Nat.pow 2 65 :=
    ((cost_assigning hlegible hagain v).trans hcount).trans (by decide)
  obtain ⟨expression, context, hrun, hmeaning⟩ := exists_meaning_of_versionedExpression hroot
    (comparisonOperator_eq_ok_iff.mpr ⟨rfl, hoperator⟩) hnodes' hexpected hsteps hcost
  rw [meaning_assigning hlegible, asPath_asPath] at hmeaning
  rw [lockExpression_eq_versionedExpression hstep hbefore hafter]
  exact ⟨expression, context, hrun, hmeaning⟩

end Edit

/-! ### Compare and swap -/

section Automatic

variable {base lead : Value} {path name operator : String} {rest : List Key} {orphans : Bool}

namespace IsVersionPath

theorem isDiffable_spine (hpath : IsVersionPath path name rest)
    (hpositions : ∀ position, .index position ∈ Key.name name :: rest →
      position + 1 < Value.memoryListLength) {v : Value} (hnumber : v.isNumber = true)
    (hnan : v.isNonNan = true) : (spine (.name name :: rest) v).IsDiffable := by
  have hleaf : ∀ test : Value → Bool, test v = true → v.everywhere test = true := by
    intro test htest
    cases v with
    | list items => cases hnumber
    | map members => cases hnumber
    | set elements => cases hnumber
    | _ => exact htest
  have hplain : v.hasNames = true ∧ v.isCountable = true ∧ v.hasLegibleNames = true := by
    cases v <;> first | exact ⟨rfl, rfl, rfl⟩ | cases hnumber
  refine ⟨ItemDelta.isDocument_spine (fun position hposition => ?_) (hleaf _ hplain.1)
    (hleaf _ hplain.2.1), hasLegibleNames_spine hpath.isLegible (hleaf _ hplain.2.2),
    isNonNan_spine (hleaf _ hnan)⟩
  have hlt := hpositions position (List.mem_cons_of_mem _ hposition)
  exact Nat.lt_trans (Nat.lt_of_succ_lt hlt) (by decide)

theorem versionDocument_eq_spine (hpath : IsVersionPath path name rest)
    (hpositions : ∀ position, .index position ∈ Key.name name :: rest →
      position + 1 < Value.memoryListLength) (v : Value) :
    versionDocument (asPath path) (some v) = .ok (spine (.name name :: rest) v) := by
  rw [versionDocument, setPath, hpath.keys]
  exact assign_spine hpositions v

end IsVersionPath

/-- A lock on a number assigns the next one, if this differs, and else nothing, under the condition
    on the number. -/
theorem exists_lockExpression_of_number (orphans : Bool) (hpath : IsVersionPath path name rest)
    (hoperator : operator ∈ comparisonOperators) (hlead : checkLead lead = .ok ())
    (hpositions : ∀ position, .index position ∈ Key.name name :: rest →
      position + 1 < Value.memoryListLength) {v w : Value}
    (hget : base.get? (.name name :: rest) = some v) (hv : v.isNumber = true)
    (hvnan : v.isNonNan = true) (hnext : nextVersion (some v) = .ok w)
    (hwnan : w.isNonNan = true) :
    ∃ expression context,
      lockExpression base path none (.text operator) orphans ⟨lead, 1, []⟩ =
        .ok expression context ∧
      expression.meaning = some
        ⟨if v.differs w then [.set [(.name name :: rest, w)]] else [],
          some (.compares (.name name :: rest) operator v)⟩ := by
  have hw := (isNumber_of_nextVersion hnext).1
  have hnull : v ≠ .null := fun hnull => by rw [hnull] at hv; cases hv
  have hstep : versionStep base (asPath path) none = .ok ⟨some v, w, true⟩ := by
    rw [versionStep_automatic hpath.keys (List.cons_ne_nil _ _), hget, hnext,
      if_neg fun heq => hnull (Option.some.inj heq)]
    rfl
  have hbefore := hpath.isDiffable_spine hpositions hv hvnan
  have hafter := hpath.isDiffable_spine hpositions hw hwnan
  have hedits := structuralEdits_spine orphans (.name name) rest (isInternal_of_isNumber hv)
    (isInternal_of_isNumber hw) (sharesContainer_of_isNumber v hw) (deletes_of_isNumber v hw)
  have hnodes : partition (spine (.name name :: rest) v) (spine (.name name :: rest) w) orphans
      false = .ok (Partition.assigning (.name name :: rest)
        (if v.differs w then some w else none)) := by
    by_cases hdiffers : v.differs w = true
    · rw [if_pos hdiffers] at hedits ⊢
      exact partition_of_edit hbefore hafter hedits nofun
    · rw [if_neg hdiffers] at hedits ⊢
      exact partition_of_length_le_one hbefore hafter hedits (Nat.zero_le 1) nofun
  have hlock := exists_lockExpression_of_nodes hpath hoperator hlead hstep
    (hpath.versionDocument_eq_spine hpositions v) (hpath.versionDocument_eq_spine hpositions w)
    hbefore hafter hnodes nofun
  rw [demandOf, Builder.keysOf_eq hpath.keys] at hlock
  by_cases hdiffers : v.differs w = true
  · rw [if_pos hdiffers] at hlock ⊢
    exact hlock
  · rw [if_neg hdiffers] at hlock ⊢
    exact hlock

/-- An integer is counted on by one, if the stored version still compares with it as stated. -/
theorem exists_lockExpression_of_int (hpath : IsVersionPath path name rest)
    (hoperator : operator ∈ comparisonOperators) (hlead : checkLead lead = .ok ())
    (hpositions : ∀ position, .index position ∈ Key.name name :: rest →
      position + 1 < Value.memoryListLength) {n : Int}
    (hget : base.get? (.name name :: rest) = some (.int n)) :
    ∃ expression context,
      lockExpression base path none (.text operator) orphans ⟨lead, 1, []⟩ =
        .ok expression context ∧
      expression.meaning = some ⟨[.set [(.name name :: rest, .int (n + 1))]],
        some (.compares (.name name :: rest) operator (.int n))⟩ := by
  have hlock := exists_lockExpression_of_number orphans hpath hoperator hlead hpositions hget
    rfl rfl rfl rfl
  rwa [if_pos (differs_succ n)] at hlock

/-- Where there is no version yet, or a null one, the first version is made, if none is stored. -/
theorem exists_lockExpression_of_none (hpath : IsVersionPath path name [])
    (hoperator : operator ∈ comparisonOperators) (hlead : checkLead lead = .ok ())
    (hget : base.get? [.name name] = none ∨ base.get? [.name name] = some .null) :
    ∃ expression context,
      lockExpression base path none (.text operator) orphans ⟨lead, 1, []⟩ =
        .ok expression context ∧
      expression.meaning = some ⟨[.set [([.name name], .int 1)]],
        some (.absent [.name name])⟩ := by
  have hpositions : ∀ position, .index position ∈ [Key.name name] →
      position + 1 < Value.memoryListLength := by simp
  have hstep : versionStep base (asPath path) none = .ok ⟨none, .int 1, true⟩ := by
    rw [versionStep_automatic hpath.keys (List.cons_ne_nil _ _)]
    rcases hget with hget | hget
    · rw [hget, if_neg (by simp)]
      rfl
    · rw [hget, if_pos rfl]
      rfl
  have hedits : structuralEdits orphans .emptyMap (spine [.name name] (.int 1)) =
      [⟨.add, [.name name], .int 1⟩] := by
    refine (structuralEdits_emptyMap_nest orphans name [] rfl).trans ?_
    split <;> rfl
  have hbefore : Value.emptyMap.IsDiffable := ⟨⟨rfl, rfl, rfl⟩, rfl, rfl⟩
  have hafter := hpath.isDiffable_spine hpositions (v := .int 1) rfl rfl
  have hlock := exists_lockExpression_of_nodes hpath hoperator hlead hstep rfl
    (hpath.versionDocument_eq_spine hpositions _) hbefore hafter (v := some (.int 1))
    (partition_of_edit hbefore hafter hedits nofun) fun _ => rfl
  rwa [demandOf, Builder.keysOf_eq hpath.keys] at hlock

/-- A lock refuses just a version that is there, is not null and is no number, as long as it can be
    written in the refusal. -/
theorem exists_ambiguousVersion_iff (hpath : pathKeys (asPath path) = .ok (.name name :: rest))
    {condition version : Value} {context : AliasContext} :
    (∃ final, lockExpression base path none condition orphans context =
        .error (.ambiguousVersion version) final) ↔
      base.get? (.name name :: rest) = some version ∧ version ≠ .null ∧
        version.isNumber = false ∧ version.hasLongInteger = false := by
  rw [exists_error_lockExpression_iff, versionStep_automatic hpath (List.cons_ne_nil _ _)]
  constructor
  · intro h
    cases hversion : nextVersion (base.get? (.name name :: rest)) with
    | ok next =>
      rw [hversion] at h
      cases h
    | error fault =>
      rw [hversion] at h
      cases h
      exact eq_of_nextVersion_ambiguous hversion
  · rintro ⟨hget, hnull, hnumber, hshort⟩
    rw [hget, nextVersion_of_not_isNumber hnull hnumber, hshort]
    rfl

/-- Where the version cannot be written, the refusal itself fails. -/
theorem lockExpression_of_hasLongInteger
    (hpath : pathKeys (asPath path) = .ok (.name name :: rest)) {condition version : Value}
    (hget : base.get? (.name name :: rest) = some version) (hnull : version ≠ .null)
    (hnumber : version.isNumber = false) (hlong : version.hasLongInteger = true)
    (context : AliasContext) :
    lockExpression base path none condition orphans context =
      .error (.tooManyDigits none) context := by
  have hstep : versionStep base (asPath path) none = .error (.tooManyDigits none) := by
    rw [versionStep_automatic hpath (List.cons_ne_nil _ _), hget,
      nextVersion_of_not_isNumber hnull hnumber, if_pos hlong]
    rfl
  exact lockExpression_eq_error hstep context

/-- In a new context, under any prefix that names can be noted under, a lock with an automatic
    version compares and swaps: an integer is counted on by one under the condition on it, and the
    first version is made at a member name where there is none, or a null one, under the condition
    that none is stored. A version that is there, is not null and is no number is refused, and no
    other one. The refusal shows it, and fails if it holds an integer too long to be written. -/
theorem lockExpression_compares_and_swaps (hpath : IsVersionPath path name rest)
    (hoperator : operator ∈ comparisonOperators) (hlead : checkLead lead = .ok ())
    (hmemory : base.everywhere Value.fitsMemory = true) :
    (∀ n, base.get? (.name name :: rest) = some (.int n) → ∃ expression context,
      lockExpression base path none (.text operator) orphans ⟨lead, 1, []⟩ =
        .ok expression context ∧
      expression.meaning = some ⟨[.set [(.name name :: rest, .int (n + 1))]],
        some (.compares (.name name :: rest) operator (.int n))⟩) ∧
    (rest = [] → base.get? [.name name] = none ∨ base.get? [.name name] = some .null →
      ∃ expression context,
        lockExpression base path none (.text operator) orphans ⟨lead, 1, []⟩ =
          .ok expression context ∧
        expression.meaning = some ⟨[.set [([.name name], .int 1)]],
          some (.absent [.name name])⟩) ∧
    (∀ version, (∃ context,
        lockExpression base path none (.text operator) orphans ⟨lead, 1, []⟩ =
          .error (.ambiguousVersion version) context) ↔
      base.get? (.name name :: rest) = some version ∧ version ≠ .null ∧
        version.isNumber = false ∧ version.hasLongInteger = false) ∧
    (∀ version, base.get? (.name name :: rest) = some version → version ≠ .null →
      version.isNumber = false → version.hasLongInteger = true →
      ∃ context, lockExpression base path none (.text operator) orphans ⟨lead, 1, []⟩ =
        .error (.tooManyDigits none) context) := by
  refine ⟨fun n hget => exists_lockExpression_of_int hpath hoperator hlead
    (position_lt_of_get? hmemory hget) hget, ?_, ?_, ?_⟩
  · rintro rfl hget
    exact exists_lockExpression_of_none hpath hoperator hlead hget
  · exact fun version => exists_ambiguousVersion_iff hpath.keys
  · exact fun version hget hnull hnumber hlong =>
      ⟨_, lockExpression_of_hasLongInteger hpath.keys hget hnull hnumber hlong _⟩

end Automatic

/-- A list element is counted on, the first version is made where nothing is known, and a version
    that is true is refused, though true counts as one elsewhere. -/
theorem lockExpression_of_element :
    (∃ expression context,
      lockExpression (.ofNamed [("m", .ofNamed [("v", .list [.text "x", .int 3])])]) "$.m.v[1]" none
        (.text "<=") true ⟨.text "my", 1, []⟩ = .ok expression context ∧
      expression.meaning = some ⟨[.set [([.name "m", .name "v", .index 1], .int 4)]],
        some (.compares [.name "m", .name "v", .index 1] "<=" (.int 3))⟩) ∧
    (∃ expression context,
      lockExpression .null "version" none (.text "=") false ⟨.null, 1, []⟩ =
        .ok expression context ∧
      expression.meaning = some ⟨[.set [([.name "version"], .int 1)]],
        some (.absent [.name "version"])⟩) ∧
    ∃ context, lockExpression (.ofNamed [("version", .bool true)]) "version" none (.text "=") false
      ⟨.null, 1, []⟩ = .error (.ambiguousVersion (.bool true)) context := by
  have hnested : IsVersionPath "$.m.v[1]" "m" [.name "v", .index 1] :=
    isVersionPath_of_text (by decide) (by decide) (by decide)
  have hversion : IsVersionPath "version" "version" [] :=
    isVersionPath_of_text (by decide) (by decide) (by decide)
  refine ⟨?_, ?_, ?_⟩
  · exact (lockExpression_compares_and_swaps hnested (by decide) rfl (by decide)).1 3 rfl
  · exact (lockExpression_compares_and_swaps hversion (by decide) rfl (by decide)).2.1 rfl
      (.inl rfl)
  · exact ((lockExpression_compares_and_swaps hversion (by decide) rfl (by decide)).2.2.1
      (.bool true)).mpr ⟨rfl, nofun, rfl, rfl⟩

/-- The refusal of a list fails, since it holds an integer too long to be written. Under a prefix
    that is a list, no name can be noted, so a lock on an integer fails. -/
theorem lockExpression_of_unwritten_version :
    (∃ context, lockExpression (.ofNamed [("version", .list [.int firstLongInteger])]) "version"
      none (.text "=") false ⟨.null, 1, []⟩ = .error (.tooManyDigits none) context) ∧
    ∃ context, lockExpression (.ofNamed [("version", .int 1)]) "version" none (.text "=") false
      ⟨.list [.int 1], 1, []⟩ = .error .wrongKind context := by
  have hversion : IsVersionPath "version" "version" [] :=
    isVersionPath_of_text (by decide) (by decide) (by decide)
  constructor
  · have hget : (Value.ofNamed [("version", .list [.int firstLongInteger])]).get?
        [.name "version"] = some (.list [.int firstLongInteger]) := rfl
    exact ⟨_, lockExpression_of_hasLongInteger hversion.keys hget nofun rfl (by decide +kernel) _⟩
  · exact exists_error_of_fault? (by decide +kernel)

end ItemDelta
