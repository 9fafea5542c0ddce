import ItemDelta.Proofs.Diff.Nested
import ItemDelta.Proofs.Expression.Guard

/-!
# What a lock says

A lock is compiled from two documents that hold nothing but a version, so there is at most one edit
between them, and this is all that its expression says besides the condition.

## Main definitions

* `knownVersion` — the version that a lock knows of.
* `lockEdits` — the edits of a lock.

## Main results

* `structuralEdits_versionDocument` — the edits between two documents with nothing but a version.
* `IsGuarded.exists_meaning_of_edits` — what a guarded expression says where there is one edit.
* `exists_lock_meaning` — what the expression of a lock says.
-/

namespace ItemDelta

/-! ### Versions -/

section Version

variable {v version : Value} {current : Option Value} {path : String} {names : List String}

theorem isInternal_of_isNumber (h : v.isNumber = true) : v.isInternal = false := by
  cases v <;> first | rfl | cases h

theorem sharesContainer_of_isNumber (u : Value) (h : v.isNumber = true) :
    u.sharesContainer v = false := by
  cases v <;> cases u <;> first | rfl | cases h

theorem deletes_of_isNumber (u : Value) (h : v.isNumber = true) : deletes u v = false := by
  cases v <;> simp_all [Value.isNumber, deletes, Value.nullified, Value.emptied, Value.isEmptyText]

theorem isDocument_nest_of_isNumber (hne : names ≠ []) (h : v.isNumber = true) :
    (nest names v).IsDocument := by
  refine isDocument_nest hne ?_ ?_
  · cases v <;> first | rfl | cases h
  · cases v <;> first | rfl | cases h

/-- The next version is a number, and follows a number if it follows anything but null. -/
theorem isNumber_of_nextVersion (h : nextVersion current = .ok version) :
    version.isNumber = true ∧ ∀ v, current = some v → v ≠ .null → v.isNumber = true := by
  cases current with
  | none =>
    cases h
    exact ⟨rfl, fun v hv => by cases hv⟩
  | some v =>
    have hnumber : version.isNumber = true ∧ (v ≠ .null → v.isNumber = true) := by
      cases v with
      | null =>
        cases h
        exact ⟨rfl, fun hne => absurd rfl hne⟩
      | int n =>
        cases h
        exact ⟨rfl, fun _ => rfl⟩
      | float x =>
        cases h
        exact ⟨rfl, fun _ => rfl⟩
      | decimal d =>
        rw [nextVersion] at h
        split at h <;> cases h
        exact ⟨rfl, fun _ => rfl⟩
      | _ =>
        simp only [nextVersion] at h
        split at h <;> cases h
    refine ⟨hnumber.1, fun w hw hne => ?_⟩
    cases hw
    exact hnumber.2 hne

/-- The version that a lock knows of: null counts as none. -/
def knownVersion (base : Value) (names : List String) : Option Value :=
  if base.get? (names.map .name) = some .null then none else base.get? (names.map .name)

theorem isNumber_of_knownVersion {base : Value}
    (h : nextVersion (base.get? (names.map .name)) = .ok version)
    (hv : knownVersion base names = some v) : v.isNumber = true := by
  rw [knownVersion] at hv
  split at hv
  · cases hv
  · rename_i hnotNull
    exact (isNumber_of_nextVersion h).2 v hv fun hnull => hnotNull (hnull ▸ hv)

/-- Without a version of its own, a lock goes from the version that it knows of to the next one. -/
theorem exists_eq_of_versionStep {base : Value} {step : VersionStep} (hbase : base ≠ .null)
    (hpath : pathKeys path = .ok (names.map .name)) (h : versionStep base path none = .ok step) :
    ∃ version, nextVersion (base.get? (names.map .name)) = .ok version ∧
      step = ⟨knownVersion base names, version, true⟩ := by
  rw [versionStep, if_neg hbase, getPath_eq_ok hpath] at h
  cases hversion : nextVersion (base.get? (names.map .name)) with
  | error fault =>
    simp only [bind, Except.bind, hversion] at h
    cases h
  | ok version =>
    simp only [bind, Except.bind, hversion] at h
    cases h
    exact ⟨version, rfl, rfl⟩

/-- The edits of a lock: a version that is not there yet is added, with `orphans` alone and else in
    the outermost map above it; one that is there is set to the next one, if this differs. -/
def lockEdits (orphans : Bool) (names : List String) (current : Option Value) (version : Value) :
    List Edit :=
  match current with
  | none =>
    if orphans then [⟨.add, names.map .name, version⟩]
    else [⟨.add, (names.take 1).map .name, nest (names.drop 1) version⟩]
  | some v => if v.differs version then [⟨.set, names.map .name, version⟩] else []

theorem versionDocument_eq_nest (hpath : pathKeys path = .ok (names.map .name)) (hne : names ≠ [])
    (v : Value) : versionDocument path (some v) = .ok (nest names v) := by
  rw [versionDocument, setPath, hpath]
  exact assign_nest hne v

/-- Between two documents that hold nothing but a version there are just the edits of a lock. -/
theorem structuralEdits_versionDocument (orphans : Bool)
    (hpath : pathKeys path = .ok (names.map .name)) (hne : names ≠ [])
    (hcurrent : ∀ v, current = some v → v.isNumber = true) (hversion : version.isNumber = true)
    {before : Value} (hbefore : versionDocument path current = .ok before) :
    before.IsDocument ∧
      structuralEdits orphans before (nest names version) =
        lockEdits orphans names current version := by
  cases current with
  | none =>
    cases hbefore
    obtain ⟨name, names, rfl⟩ := List.exists_cons_of_ne_nil hne
    refine ⟨⟨rfl, rfl, rfl⟩, ?_⟩
    rw [structuralEdits_emptyMap_nest orphans name names (isInternal_of_isNumber hversion)]
    rfl
  | some v =>
    rw [versionDocument_eq_nest hpath hne, Except.ok.injEq] at hbefore
    have hv := hcurrent v rfl
    rw [← hbefore]
    refine ⟨isDocument_nest_of_isNumber hne hv, ?_⟩
    exact structuralEdits_nest orphans hne (isInternal_of_isNumber hv)
      (isInternal_of_isNumber hversion) (sharesContainer_of_isNumber v hversion)
      (deletes_of_isNumber v hversion)

/-- Without orphans, the first version comes in the outermost map above it. -/
theorem partition_emptyMap_nest {name : String} (hversion : version.isNumber = true)
    (hlegible : (nest (name :: names) version).everywhere Value.hasLegibleNames = true)
    (hnan : (nest (name :: names) version).everywhere Value.isNonNan = true) :
    partition .emptyMap (nest (name :: names) version) false false =
      .ok ⟨[Node.along [.name name] (nest names version)], [], []⟩ := by
  have hdocument := isDocument_nest_of_isNumber (List.cons_ne_nil name names) hversion
  exact partition_of_edit ⟨⟨rfl, rfl, rfl⟩, rfl, rfl⟩ ⟨hdocument, hlegible, hnan⟩
    (structuralEdits_emptyMap_nest false name names (isInternal_of_isNumber hversion))
    fun hdelete => by cases hdelete

end Version

/-! ### What the expression of a lock says -/

theorem asPath_asPath (text : String) : asPath (asPath text) = asPath text := by
  have hroot : (asPath text).toList.head? = some rootSign := by
    rw [asPath]
    split
    · assumption
    · rw [pathText, String.toList_ofList]
      rfl
  rw [asPath, if_pos hroot]

section Meaning

variable {base modified lead : Value} {orphans : Bool} {edits : List Edit} {check : VersionCheck}
  {expression : Expression} {context : AliasContext}

/-- A guarded expression between documents with at most one edit assigns what the edit does. -/
theorem IsGuarded.exists_meaning_of_edits
    (h : IsGuarded base modified check orphans lead expression context)
    (hbase : base.IsDocument) (hmodified : modified.IsDocument)
    (hpath : pathKeys (asPath check.path) ≠ .ok []) (hlimit : context.counter < counterLimit)
    (hedits : structuralEdits orphans base modified = edits) (hone : edits.length ≤ 1)
    (hwrites : ∀ c ∈ edits, c.bucket ≠ .delete) :
    (∀ c ∈ edits, ∀ key ∈ c.keys, key.isLegible = true) ∧
      ∃ meaning, expression.meaning = some meaning ∧
        meaning.assignments = edits.map (fun c => (c.keys, c.value)) ∧ meaning.removals = [] := by
  have hshares := sharesContainer_of_isDocument hbase hmodified
  have hnames := hbase.named
  have hothers := hmodified.named
  obtain ⟨operator, nodes, expected, -, hnodes, -, hmeaning⟩ := h.exists_meaning_eq hpath hlimit
  rw [hbase.orEmpty_eq, hmodified.orEmpty_eq] at hnodes
  obtain ⟨ha, hb, rfl⟩ := eq_of_partition hnames hothers hshares hnodes
  have hlegible : ∀ c ∈ edits, ∀ key ∈ c.keys, key.isLegible = true := by
    intro c hc
    rw [← hedits] at hc
    exact isLegible_of_isEdit ha hb ((mem_structuralEdits_iff hnames hothers hshares).mp hc).2
  obtain ⟨hset, hdelete⟩ := bucketNodes_of_length_le_one hone hwrites
  refine ⟨hlegible, _, hmeaning, ?_, ?_⟩
  · have hassignments : ∀ request : Request, ∀ demand,
        (⟨request.meaning.update, demand⟩ : Meaning).assignments = request.set := fun request _ =>
      request.assignments_meaning
    rw [hassignments, structuralDiff, hedits]
    show (bucketNodes .add edits ++ bucketNodes .set edits).map Node.target = _
    rw [hset, List.map_map]
    exact List.map_congr_left fun c hc => Node.target_along (hlegible c hc) c.value
  · have hremovals : ∀ request : Request, ∀ demand,
        (⟨request.meaning.update, demand⟩ : Meaning).removals = request.remove := fun request _ =>
      request.removals_meaning
    rw [hremovals, structuralDiff, hedits]
    show (bucketNodes .delete edits).map _ = []
    rw [hdelete]
    rfl

end Meaning

section Lock

variable {base version condition : Value} {orphans : Bool} {names : List String} {path : String}
  {current : Option Value} {expression : Expression} {start context : AliasContext}

theorem length_lockEdits (orphans : Bool) (names : List String) (current : Option Value)
    (version : Value) : (lockEdits orphans names current version).length ≤ 1 := by
  cases current <;> simp only [lockEdits] <;> split <;> simp

theorem bucket_ne_delete_of_mem_lockEdits {c : Edit}
    (h : c ∈ lockEdits orphans names current version) : c.bucket ≠ .delete := by
  cases current <;> simp only [lockEdits] at h <;> split at h <;> simp_all

/-- The expression of a lock assigns what its edits do, all at places that a path can tell, and
    removes nothing. -/
theorem exists_lock_meaning (hcontext : start.IsReachable) (hbase : base.IsDocument)
    (hpath : pathKeys (asPath path) = .ok (names.map .name)) (hne : names ≠ [])
    (hrun : lockExpression base path none condition orphans start = .ok expression context)
    (hlimit : context.counter < counterLimit) :
    ∃ version meaning, nextVersion (base.get? (names.map .name)) = .ok version ∧
      expression.meaning = some meaning ∧
      meaning.assignments = (lockEdits orphans names (knownVersion base names) version).map
        (fun c => (c.keys, c.value)) ∧
      meaning.removals = [] ∧
      ∀ c ∈ lockEdits orphans names (knownVersion base names) version, ∀ key ∈ c.keys,
        key.isLegible = true := by
  obtain ⟨step, before, after, hstep, hbefore, hafter, hguarded⟩ :=
    ((leads_lockExpression base path none condition orphans hcontext.isSound).ok _ _ hrun).2
  have hnull : base ≠ .null := by
    obtain ⟨members, rfl⟩ := hbase.exists_eq_map
    exact fun h => by cases h
  obtain ⟨version, hversion, rfl⟩ := exists_eq_of_versionStep hnull hpath hstep
  have hnumber := (isNumber_of_nextVersion hversion).1
  obtain ⟨hbeforeDoc, hedits⟩ := structuralEdits_versionDocument orphans hpath hne
    (fun v hv => isNumber_of_knownVersion hversion hv) hnumber hbefore
  rw [versionDocument_eq_nest hpath hne, Except.ok.injEq] at hafter
  rw [← hafter] at hguarded
  have hroot : pathKeys (asPath (asPath path)) ≠ .ok [] := by
    rw [asPath_asPath, hpath]
    exact fun h => hne (List.map_eq_nil_iff.mp (Except.ok.inj h))
  obtain ⟨hlegible, meaning, hmeaning, hassignments, hremovals⟩ :=
    hguarded.exists_meaning_of_edits hbeforeDoc (isDocument_nest_of_isNumber hne hnumber) hroot
      hlimit hedits (length_lockEdits _ _ _ _) fun c => bucket_ne_delete_of_mem_lockEdits
  exact ⟨version, meaning, hversion, hmeaning, hassignments, hremovals, hlegible⟩

theorem lockExpression_eq_versionedExpression {before after : Value} {new : Option Value}
    {step : VersionStep} (hstep : versionStep base (asPath path) new = .ok step)
    (hbefore : versionDocument (asPath path) step.current = .ok before)
    (hafter : versionDocument (asPath path) (some step.new) = .ok after) (context : AliasContext) :
    lockExpression base path new condition orphans context =
      versionedExpression before after ⟨asPath path, condition, step.current, step.expectCurrent⟩
        orphans context := by
  rw [lockExpression, ofExcept_bind_of_ok hstep, ofExcept_bind_of_ok hbefore,
    ofExcept_bind_of_ok hafter]

/-- A version that cannot be counted on stops a lock before anything is compiled. -/
theorem lockExpression_eq_error {fault : Error}
    (hstep : versionStep base (asPath path) none = .error fault) (context : AliasContext) :
    lockExpression base path none condition orphans context = .error fault context := by
  rw [lockExpression, ofExcept_bind_of_error hstep]

end Lock

end ItemDelta
