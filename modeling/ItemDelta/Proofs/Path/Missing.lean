import ItemDelta.Proofs.Path.Lens

/-!
# Removals of what is missing

A removal at a path where nothing is keeps the document, if the parent of the place is a container,
or missing as well. Below any other value it may fail: whether something stands there is asked of
that value, and few values can tell. It fails, too, if the path of the parent cannot be read.

## Main definitions

* `Value.deniesKey` — a value that is no container tells that it does not hold something.
* `Value.RefusesRemoval` — a value on the way neither is a container nor tells so.

## Main results

* `exists_malformedPath` — a path with an overlooked line feed in it is malformed.
* `removeAt_eq_self_of_get?_eq_none`, `removeAt_eq_error_of_refusesRemoval` — the removal along
  keys.
* `removePath_of_getPath_eq_none` — what a removal at a path does where nothing is.
-/

namespace ItemDelta

/-- Whether a value that is no container tells that it does not hold something under a key. A text
    looks for a name inside itself and a set for any key among its elements; nothing else can be
    asked. -/
def Value.deniesKey : Value → Key → Bool
  | .text s, .name name => !occursIn name.toList s.toList
  | .set elements, .name name => !elements.any (agrees (.text name))
  | .set elements, .index position => !elements.any (agrees (.int position))
  | _, _ => false

/-- A removal of a key from the value at the end of some keys is refused: that value is no container
    and does not deny that it holds the key. -/
def Value.RefusesRemoval (v : Value) (parents : List Key) (key : Key) : Prop :=
  ∃ parent, v.get? parents = some parent ∧ parent.isContainer = false ∧
    parent.deniesKey key = false

/-! ### Malformed paths -/

theorem exists_malformedPath_of_feed (path : String) {keys : List Key}
    (hpositions : ∀ position, .index position ∈ keys → (Key.index position).isLegible = true)
    (hfeed : ∃ key ∈ keys, key.EndsInFeed) : ∃ position,
      parseSegments path (keys.flatMap Key.step) = .error (.malformedPath path position) := by
  induction keys with
  | nil =>
    obtain ⟨key, hkey, -⟩ := hfeed
    cases hkey
  | cons key keys ih =>
    rw [List.flatMap_cons]
    by_cases hlegible : key.isLegible = true
    · -- A legible step is read, and the line feed is overlooked further down.
      obtain ⟨feed, hmem, hends⟩ := hfeed
      have hne : feed ≠ key := by
        rintro rfl
        obtain ⟨identifier, -, rfl⟩ := id hends
        rw [isLegible_name_eq_false_iff.mpr hends] at hlegible
        cases hlegible
      obtain ⟨position, hposition⟩ := ih
        (fun position hmem => hpositions position (List.mem_cons_of_mem key hmem))
        ⟨feed, (List.mem_cons.mp hmem).resolve_left hne, hends⟩
      refine ⟨position, ?_⟩
      rw [parseSegments_of_scanSegment (scanSegment_step hlegible (endsName_steps keys)), hposition]
      rfl
    · cases key with
      | index position => exact absurd (hpositions position List.mem_cons_self) hlegible
      | name text =>
        obtain ⟨identifier, hidentifier, heq⟩ :=
          isLegible_name_eq_false_iff.mp ((Bool.not_eq_true _).mp hlegible)
        have hrest : parseSegments path ('\n' :: keys.flatMap Key.step) =
            .error (.malformedPath path
              (path.length - ('\n' :: keys.flatMap Key.step).length)) := by
          rw [parseSegments]
          split <;> rename_i hscan <;> cases hscan
          rfl
        rw [heq, parseSegments_of_scanSegment (scanSegment_step_of_feed hidentifier _), hrest]
        exact ⟨_, rfl⟩

/-- A path with an overlooked line feed in it is malformed. -/
theorem exists_malformedPath {keys : List Key}
    (hpositions : ∀ position, .index position ∈ keys → (Key.index position).isLegible = true)
    (hfeed : ∃ key ∈ keys, key.EndsInFeed) : ∃ position,
      pathKeys (pathText keys) = .error (.malformedPath (pathText keys) position) := by
  obtain ⟨position, hposition⟩ := exists_malformedPath_of_feed (pathText keys) hpositions hfeed
  refine ⟨position, ?_⟩
  simp only [pathKeys, parsePath, pathText, String.toList_ofList, pathChars, if_true] at hposition ⊢
  rw [hposition]
  rfl

/-! ### Removals along keys -/

section Removals

variable {v u parent : Value} {key : Key} {keys parents : List Key}

theorem Members.erase_eq_self {members : Members} (h : members.get? key = none) :
    members.erase key = members := by
  induction members with
  | nil => rfl
  | cons member rest ih =>
    obtain ⟨k, x⟩ := member
    rw [Members.get?_cons] at h
    rw [Members.erase]
    split at h
    · cases h
    · rename_i hk
      rw [if_neg hk, ih h]

/-- A container has nothing to remove under a key that leads nowhere. -/
theorem removeKey_of_isContainer (hv : v.isContainer = true) (hnames : v.hasNames = true)
    (h : v.child? key = none) : v.removeKey key = .ok v := by
  cases v <;> cases hv
  case list items =>
    cases key with
    | name name => rfl
    | index i =>
      have hi : items.length ≤ i := List.getElem?_eq_none_iff.mp h
      rw [Value.removeKey, List.set_eq_of_length_le hi]
  case map members =>
    rw [Value.child?_map hnames] at h
    rw [Value.removeKey, Members.erase_eq_self h]

/-- Any other value tells that it does not hold something under a key, or cannot be changed. -/
theorem removeKey_of_not_isContainer (hv : v.isContainer = false) (key : Key) :
    v.removeKey key = if v.deniesKey key then .ok v else .error .wrongKind := by
  cases v with
  | list items => cases hv
  | map members => cases hv
  | text s =>
    cases key with
    | name name =>
      rw [Value.removeKey, Value.deniesKey]
      cases Value.occursIn name.toList s.toList <;> rfl
    | index position => rfl
  | set elements =>
    cases key with
    | name name =>
      rw [Value.removeKey, Value.deniesKey]
      cases elements.any (Value.agrees (.text name)) <;> rfl
    | index position =>
      rw [Value.removeKey, Value.deniesKey]
      cases elements.any (Value.agrees (.int position)) <;> rfl
  | _ => cases key <;> rfl

theorem replaceChild_eq_self (h : v.child? key = some u) : v.replaceChild key u = v := by
  cases v <;> cases key <;> try cases h
  case list.index items i => rw [Value.replaceChild, set_eq_self h]
  case map.name members name => rw [Value.replaceChild, Members.insert_eq_self h]

/-- A removal whose parent is missing, or stays as it is, keeps the document. -/
theorem removeAt_eq_self
    (h : ∀ parent, v.get? parents = some parent → parent.removeKey key = .ok parent) :
    v.removeAt parents key = .ok v := by
  induction parents generalizing v with
  | nil => exact h v (Value.get?_nil v)
  | cons next parents ih =>
    rw [Value.removeAt]
    cases hchild : v.child? next with
    | none => rfl
    | some child =>
      have hbelow := ih (v := child) fun parent hparent => h parent (by
        rw [Value.get?_cons, hchild]
        exact hparent)
      show (child.removeAt parents key).map _ = _
      rw [hbelow]
      exact congrArg Except.ok (replaceChild_eq_self hchild)

/-- A removal fails as that from the parent does. -/
theorem removeAt_eq_error {fault : Error} (hget : v.get? parents = some parent)
    (h : parent.removeKey key = .error fault) : v.removeAt parents key = .error fault := by
  induction parents generalizing v with
  | nil =>
    rw [Value.get?_nil, Option.some.injEq] at hget
    exact (congrArg (Value.removeKey · key) hget).trans h
  | cons next parents ih =>
    rw [Value.get?_cons, Option.bind_eq_some_iff] at hget
    obtain ⟨child, hchild, hget⟩ := hget
    rw [Value.removeAt, hchild]
    show (child.removeAt parents key).map _ = _
    rw [ih hget]
    rfl

theorem removeAt_eq_error_of_refusesRemoval (h : v.RefusesRemoval parents key) :
    v.removeAt parents key = .error .wrongKind := by
  obtain ⟨parent, hget, hcontainer, hdenies⟩ := h
  refine removeAt_eq_error hget ?_
  rw [removeKey_of_not_isContainer hcontainer, hdenies]
  rfl

/-- A removal of what is missing keeps the document, unless the parent refuses it. -/
theorem removeAt_eq_self_of_get?_eq_none (hnames : v.everywhere Value.hasNames = true)
    (h : v.get? (parents ++ [key]) = none) (hrefuses : ¬v.RefusesRemoval parents key) :
    v.removeAt parents key = .ok v := by
  refine removeAt_eq_self fun parent hget => ?_
  have hchild : parent.child? key = none := by
    rw [Value.get?_append, hget, Option.bind_some, Value.get?_singleton] at h
    exact h
  cases hcontainer : parent.isContainer with
  | true =>
    have hparent := Value.test_of_everywhere (Value.everywhere_of_get? hnames hget)
    exact removeKey_of_isContainer hcontainer hparent hchild
  | false =>
    cases hdenies : parent.deniesKey key with
    | true => rw [removeKey_of_not_isContainer hcontainer, hdenies, if_pos rfl]
    | false => exact absurd ⟨parent, hget, hcontainer, hdenies⟩ hrefuses

end Removals

/-! ### Removals at a path -/

/-- A removal at a path where nothing is keeps the document just if the path of the parent can be
    read and the parent does not refuse it. It fails with one of two errors otherwise. -/
theorem removePath_of_getPath_eq_none {document : Value} {path : String} {parents : List Key}
    {key : Key} (hnames : document.everywhere Value.hasNames = true)
    (hpath : pathKeys path = .ok (parents ++ [key])) (h : getPath document path = .ok none) :
    (removePath document path = .ok document ↔
      (∀ k ∈ parents, ¬k.EndsInFeed) ∧ ¬document.RefusesRemoval parents key) ∧
    ((∃ k ∈ parents, k.EndsInFeed) → ∃ position,
      removePath document path = .error (.malformedPath (pathText parents) position)) ∧
    ((∀ k ∈ parents, ¬k.EndsInFeed) → document.RefusesRemoval parents key →
      removePath document path = .error .wrongKind) := by
  have hpositions : ∀ position, .index position ∈ parents →
      (Key.index position).isLegible = true := fun position hmem =>
    isLegible_of_pathKeys hpath position (List.mem_append_left _ hmem)
  have hmalformed : (∃ k ∈ parents, k.EndsInFeed) → ∃ position,
      removePath document path = .error (.malformedPath (pathText parents) position) := by
    intro hfeed
    obtain ⟨position, hposition⟩ := exists_malformedPath hpositions hfeed
    refine ⟨position, ?_⟩
    rw [removePath, hpath]
    simp [bind, Except.bind, hposition]
  have hremove : (∀ k ∈ parents, ¬k.EndsInFeed) →
      removePath document path = document.removeAt parents key := by
    intro hfeeds
    have hlegible := (forall_isLegible_iff hpositions).mpr hfeeds
    rw [removePath, hpath]
    simp [bind, Except.bind, pathKeys_pathText hlegible]
  have hrefused : (∀ k ∈ parents, ¬k.EndsInFeed) → document.RefusesRemoval parents key →
      removePath document path = .error .wrongKind := by
    intro hfeeds hrefuses
    rw [hremove hfeeds, removeAt_eq_error_of_refusesRemoval hrefuses]
  refine ⟨⟨fun hok => ?_, fun hkept => ?_⟩, hmalformed, hrefused⟩
  · have hfeeds : ∀ k ∈ parents, ¬k.EndsInFeed := fun k hk hends => by
      obtain ⟨position, hposition⟩ := hmalformed ⟨k, hk, hends⟩
      cases hposition.symm.trans hok
    exact ⟨hfeeds, fun hrefuses => by cases (hrefused hfeeds hrefuses).symm.trans hok⟩
  · obtain ⟨hfeeds, hrefuses⟩ := hkept
    rw [getPath_eq_ok hpath, Except.ok.injEq] at h
    rw [hremove hfeeds, removeAt_eq_self_of_get?_eq_none hnames h hrefuses]

/-- Below a number a removal fails, below a text just if the name is a part of it, and below a
    member whose name hides a line feed always. -/
theorem removePath_of_scalar :
    let document : Value := .ofNamed [("n", .int 5), ("s", .text "abc")]
    removePath document "$.n.b" = .error .wrongKind ∧
    removePath document "$.s.b" = .error .wrongKind ∧
    removePath document "$.s.x" = .ok document ∧
    ∃ position, removePath document "$[\"a\\n\"].b" = .error (.malformedPath "$.a\n" position) := by
  intro document
  have hnames : document.everywhere Value.hasNames = true := by decide
  have hremoval := fun {path : String} {name last : String}
      (hpath : pathKeys path = .ok ([.name name] ++ [.name last]))
      (hnone : document.get? [.name name, .name last] = none) =>
    removePath_of_getPath_eq_none hnames hpath
      (by rw [getPath_eq_ok hpath]; exact congrArg Except.ok hnone)
  have hplain : ∀ name last, (∀ key ∈ [Key.name name, .name last], key.isLegible = true) →
      pathKeys (pathText [.name name, .name last]) = .ok ([.name name] ++ [.name last]) :=
    fun _ _ => pathKeys_pathText
  have hn : pathKeys "$.n.b" = .ok ([.name "n"] ++ [.name "b"]) := hplain "n" "b" (by decide)
  have hb : pathKeys "$.s.b" = .ok ([.name "s"] ++ [.name "b"]) := hplain "s" "b" (by decide)
  have hx : pathKeys "$.s.x" = .ok ([.name "s"] ++ [.name "x"]) := hplain "s" "x" (by decide)
  have hfeed : pathKeys "$[\"a\\n\"].b" = .ok ([.name "a\n"] ++ [.name "b"]) := by
    have hkeys : (pathKeys "$[\"a\\n\"].b").toOption = some [.name "a\n", .name "b"] := by
      decide +kernel
    cases hpath : pathKeys "$[\"a\\n\"].b" with
    | error error => rw [hpath] at hkeys; cases hkeys
    | ok keys => rw [hpath] at hkeys; rw [Option.some.inj hkeys]; rfl
  have hfeeds : ∀ name, (Key.name name).isLegible = true →
      ∀ k ∈ [Key.name name], ¬k.EndsInFeed := fun name hlegible =>
    (forall_isLegible_iff (by simp)).mp (by simpa using hlegible)
  refine ⟨(hremoval hn rfl).2.2 (hfeeds "n" (by decide)) ⟨.int 5, rfl, rfl, rfl⟩,
    (hremoval hb rfl).2.2 (hfeeds "s" (by decide)) ⟨.text "abc", rfl, rfl, by decide⟩,
    (hremoval hx rfl).1.mpr ⟨hfeeds "s" (by decide), ?_⟩,
    (hremoval hfeed rfl).2.1 ⟨.name "a\n", List.mem_cons_self, ['a'], rfl, rfl⟩⟩
  rintro ⟨parent, hparent, -, hdenies⟩
  cases hparent
  exact absurd hdenies (by decide)

end ItemDelta
