import ItemDelta.Path.Access
import ItemDelta.Proofs.Path.RoundTrip
import Mathlib.Data.List.Nodup

/-!
# Documents

A value is a document if it is a map whose maps, at every depth, have names as keys and each name
once, and whose lists are no longer than the machine can count. The properties that hold at every
depth of a value are found again wherever a read along keys leads to.

## Main definitions

* `Value.everywhere` — whether a test holds of a value and of everything inside it.
* `Value.hasNames`, `Value.hasLegibleNames`, `Value.hasFilledNames`, `Value.isCountable`,
  `Value.isNonNan` — such tests.
* `Value.IsDocument` — the values that the documents of the program are.

## Main results

* `Members.get?_eq_some_iff` — a lookup finds exactly the members that are there.
* `Value.everywhere_of_get?` — what holds everywhere holds where a read leads to.
* `Value.isLegible_of_get?` — the keys that lead to a value in a document with legible names can be
  read back from their path.
-/

namespace ItemDelta

/-! ### Members of a map -/

namespace Members

variable {members : Members} {key other : Key} {value found : Value}

/-- The keys of a map. -/
def keys (members : Members) : List Key := members.map (·.1)

@[simp] theorem keys_nil : keys [] = [] := rfl

@[simp] theorem keys_cons (member : Key × Value) (rest : Members) :
    keys (member :: rest) = member.1 :: keys rest := rfl

theorem mem_keys_of_mem (h : (key, value) ∈ members) : key ∈ members.keys :=
  List.mem_map_of_mem (f := (·.1)) h

theorem get?_cons (k : Key) (v : Value) (rest : Members) :
    get? ((k, v) :: rest) key = if k = key then some v else get? rest key := rfl

theorem mem_of_get? (h : members.get? key = some value) : (key, value) ∈ members := by
  induction members with
  | nil => simp at h
  | cons member rest ih =>
    obtain ⟨k, v⟩ := member
    rw [get?_cons] at h
    split at h
    · rename_i hk
      rw [Option.some.injEq] at h
      rw [hk, h]
      exact List.mem_cons_self
    · exact List.mem_cons_of_mem _ (ih h)

/-- Where every key stands once, a lookup finds exactly the members that are there. -/
theorem get?_eq_some_iff (h : members.keys.Nodup) :
    members.get? key = some value ↔ (key, value) ∈ members := by
  refine ⟨mem_of_get?, fun hmem => ?_⟩
  induction members with
  | nil => simp at hmem
  | cons member rest ih =>
    obtain ⟨k, v⟩ := member
    rw [keys_cons, List.nodup_cons] at h
    rw [get?_cons]
    rcases List.mem_cons.mp hmem with heq | hmem
    · rw [Prod.mk.injEq] at heq
      rw [if_pos heq.1.symm, heq.2]
    · have hne : k ≠ key := fun hk => h.1 (hk ▸ mem_keys_of_mem hmem)
      rw [if_neg hne]
      exact ih h.2 hmem

theorem get?_eq_none_iff : members.get? key = none ↔ key ∉ members.keys := by
  induction members with
  | nil => simp
  | cons member rest ih =>
    obtain ⟨k, v⟩ := member
    rw [get?_cons, keys_cons, List.mem_cons, not_or]
    by_cases hk : k = key
    · simp [hk]
    · simp [hk, ih, Ne.symm hk]

theorem contains_iff : members.contains key = true ↔ key ∈ members.keys := by
  rw [contains, Option.isSome_iff_ne_none, ne_eq, get?_eq_none_iff, not_not]

theorem get?_isSome_iff : (members.get? key).isSome = true ↔ key ∈ members.keys :=
  contains_iff

/-- Two maps have the same keys if each lookup finds something in both of them, or in neither. -/
theorem keys_perm_of_rel {others : Members} {r : Value → Value → Prop} (h : members.keys.Nodup)
    (h' : others.keys.Nodup)
    (hrel : ∀ key, Option.Rel r (members.get? key) (others.get? key)) :
    members.keys.Perm others.keys := by
  refine (List.perm_ext_iff_of_nodup h h').mpr fun key => ?_
  rw [← get?_isSome_iff, ← get?_isSome_iff]
  have hkey := hrel key
  cases hv : members.get? key <;> cases hw : others.get? key <;> rw [hv, hw] at hkey <;>
    first | rfl | cases hkey

theorem keys_insert (members : Members) (key : Key) (value : Value) :
    (members.insert key value).keys =
      if key ∈ members.keys then members.keys else members.keys ++ [key] := by
  induction members with
  | nil => simp [insert]
  | cons member rest ih =>
    obtain ⟨k, v⟩ := member
    by_cases hk : k = key
    · simp [insert, hk]
    · simp only [insert, hk, if_false, keys_cons, ih, List.mem_cons, Ne.symm hk, false_or]
      split <;> simp

theorem nodup_keys_insert (h : members.keys.Nodup) (key : Key) (value : Value) :
    (members.insert key value).keys.Nodup := by
  rw [keys_insert]
  split
  · exact h
  · rename_i hkey
    refine List.nodup_append.mpr ⟨h, by simp, ?_⟩
    intro k hk other hother heq
    rw [List.mem_singleton] at hother
    exact hkey (hother ▸ heq ▸ hk)

theorem mem_insert {member : Key × Value} (h : member ∈ members.insert key value) :
    member = (key, value) ∨ member ∈ members := by
  induction members with
  | nil => exact .inl (List.mem_singleton.mp h)
  | cons first rest ih =>
    obtain ⟨k, v⟩ := first
    rw [insert] at h
    split at h
    · exact (List.mem_cons.mp h).imp_right (List.mem_cons_of_mem _)
    · rcases List.mem_cons.mp h with rfl | h
      · exact .inr List.mem_cons_self
      · exact (ih h).imp_right (List.mem_cons_of_mem _)

theorem keys_erase (members : Members) (key : Key) :
    (members.erase key).keys = members.keys.erase key := by
  induction members with
  | nil => rfl
  | cons member rest ih =>
    obtain ⟨k, v⟩ := member
    by_cases hk : k = key
    · simp [erase, hk]
    · simp [erase, hk, ih]

theorem nodup_keys_erase (h : members.keys.Nodup) (key : Key) :
    (members.erase key).keys.Nodup := by
  rw [keys_erase]
  exact h.erase key

theorem get?_erase_self (h : members.keys.Nodup) : (members.erase key).get? key = none := by
  rw [get?_eq_none_iff, keys_erase, h.mem_erase_iff]
  simp

theorem get?_erase_of_ne (h : other ≠ key) :
    (members.erase key).get? other = members.get? other := by
  induction members with
  | nil => rfl
  | cons member rest ih =>
    obtain ⟨k, v⟩ := member
    by_cases hk : k = key
    · simp [erase, hk, get?_cons, Ne.symm h]
    · simp [erase, hk, get?_cons, ih]

end Members

namespace Value

/-! ### Induction -/

/-- Induction on the containers of a value. -/
@[elab_as_elim]
theorem containerInduction {motive : Value → Prop}
    (leaf : ∀ v, v.isContainer = false → motive v)
    (list : ∀ items, (∀ v ∈ items, motive v) → motive (.list items))
    (map : ∀ members, (∀ key v, (key, v) ∈ members → motive v) → motive (.map members))
    (v : Value) : motive v :=
  match v with
  | .list items => list items fun v _ => containerInduction leaf list map v
  | .map members => map members fun _ v _ => containerInduction leaf list map v
  | .null | .bool _ | .int _ | .float _ | .decimal _ | .text _ | .set _ => leaf _ rfl
termination_by sizeOf v
decreasing_by
  · have hmem := List.sizeOf_lt_of_mem ‹_›
    rw [Value.list.sizeOf_spec]
    omega
  · have hmem := List.sizeOf_lt_of_mem ‹_›
    rw [Prod.mk.sizeOf_spec] at hmem
    rw [Value.map.sizeOf_spec]
    omega

/-- Induction on what a read leads to. -/
@[elab_as_elim]
theorem childInduction {motive : Value → Prop}
    (step : ∀ v, (∀ key w, v.child? key = some w → motive w) → motive v) (v : Value) :
    motive v := by
  induction v using containerInduction with
  | leaf v hv =>
    refine step v fun key w hw => ?_
    cases v <;> simp_all [isContainer, child?]
  | list items ih =>
    refine step _ fun key w hw => ?_
    cases key with
    | name name => simp [child?] at hw
    | index position => exact ih w (List.mem_of_getElem? hw)
  | map members ih =>
    refine step _ fun key w hw => ?_
    cases key with
    | name name => exact ih _ w (Members.mem_of_get? hw)
    | index position => simp [child?] at hw

/-! ### Tests at every depth -/

mutual

/-- Whether a test holds of a value and of everything inside it. -/
def everywhere (test : Value → Bool) : Value → Bool
  | .list items => test (.list items) && everywhereItems test items
  | .map members => test (.map members) && everywhereMembers test members
  | .set elements => test (.set elements) && everywhereItems test elements
  | v => test v

/-- Whether a test holds of several values and of everything inside them. -/
def everywhereItems (test : Value → Bool) : List Value → Bool
  | [] => true
  | v :: vs => everywhere test v && everywhereItems test vs

/-- Whether a test holds of the values of several members and of everything inside them. -/
def everywhereMembers (test : Value → Bool) : List (Key × Value) → Bool
  | [] => true
  | (_, v) :: members => everywhere test v && everywhereMembers test members

end

variable {test : Value → Bool} {v w : Value} {keys : List Key}

theorem everywhereItems_iff {items : List Value} :
    everywhereItems test items = true ↔ ∀ v ∈ items, everywhere test v = true := by
  induction items with
  | nil => simp [everywhereItems]
  | cons v items ih => simp [everywhereItems, ih]

theorem everywhereMembers_iff {members : Members} :
    everywhereMembers test members = true ↔
      ∀ key v, (key, v) ∈ members → everywhere test v = true := by
  induction members with
  | nil => simp [everywhereMembers]
  | cons member members ih =>
    obtain ⟨k, v⟩ := member
    simp only [everywhereMembers, Bool.and_eq_true, ih, List.mem_cons, Prod.mk.injEq]
    constructor
    · rintro ⟨hv, hrest⟩ key w (⟨-, rfl⟩ | hmem)
      · exact hv
      · exact hrest key w hmem
    · exact fun h => ⟨h k v (.inl ⟨rfl, rfl⟩), fun key w hmem => h key w (.inr hmem)⟩

theorem test_of_everywhere (h : v.everywhere test = true) : test v = true := by
  cases v <;> simp_all [everywhere]

theorem everywhere_of_child? {key : Key} (h : v.everywhere test = true)
    (hchild : v.child? key = some w) : w.everywhere test = true := by
  cases v <;> cases key <;> simp only [child?, reduceCtorEq] at hchild
  · simp only [everywhere, Bool.and_eq_true, everywhereItems_iff] at h
    exact h.2 w (List.mem_of_getElem? hchild)
  · simp only [everywhere, Bool.and_eq_true, everywhereMembers_iff] at h
    exact h.2 _ w (Members.mem_of_get? hchild)

/-- What holds everywhere in a value holds everywhere below the place where a read leads to. -/
theorem everywhere_of_get? (h : v.everywhere test = true) (hget : v.get? keys = some w) :
    w.everywhere test = true := by
  induction keys generalizing v with
  | nil =>
    rw [get?_nil, Option.some.injEq] at hget
    exact hget ▸ h
  | cons key keys ih =>
    rw [get?_cons, Option.bind_eq_some_iff] at hget
    obtain ⟨child, hchild, hget⟩ := hget
    exact ih (everywhere_of_child? h hchild) hget

/-! ### Documents -/

/-- Whether the keys of a map are names, and each of them stands once. -/
def hasNames : Value → Bool
  | .map members =>
    (members.all fun member => match member.1 with
      | .name _ => true
      | .index _ => false) && decide (Members.keys members).Nodup
  | _ => true

/-- Whether no line feed is overlooked at the end of a name in a map. -/
def hasLegibleNames : Value → Bool
  | .map members => members.all fun member => member.1.isLegible
  | _ => true

/-- Whether no member of a map has the empty name. -/
def hasFilledNames : Value → Bool
  | .map members => members.all fun member => member.1 != .name ""
  | _ => true

/-- Whether a list is no longer than the machine can count. -/
def isCountable : Value → Bool
  | .list items => decide (items.length ≤ maxListLength)
  | _ => true

/-- Whether a value is no NaN. -/
def isNonNan : Value → Bool
  | .float .nan => false
  | .decimal (.nan ..) => false
  | _ => true

/-- A document is a map. Its maps, at every depth, have names as keys and each name once, and its
    lists are no longer than the machine can count. -/
structure IsDocument (v : Value) : Prop where
  kind : v.kind = .map
  named : v.everywhere hasNames = true
  countable : v.everywhere isCountable = true

theorem IsDocument.exists_eq_map (h : v.IsDocument) : ∃ members, v = .map members := by
  have hkind := h.kind
  cases v <;> simp [Value.kind] at hkind
  exact ⟨_, rfl⟩

theorem exists_name_of_hasNames {members : Members} (h : (Value.map members).hasNames = true)
    {key : Key} (hkey : key ∈ members.keys) : ∃ name, key = .name name := by
  simp only [hasNames, Bool.and_eq_true, List.all_eq_true] at h
  obtain ⟨member, hmem, rfl⟩ := List.mem_map.mp hkey
  have hname := h.1 member hmem
  cases hk : member.1 with
  | name name => exact ⟨name, rfl⟩
  | index position => simp [hk] at hname

theorem nodup_keys_of_hasNames {members : Members} (h : (Value.map members).hasNames = true) :
    members.keys.Nodup := by
  simp only [hasNames, Bool.and_eq_true, decide_eq_true_eq] at h
  exact h.2

/-- A map stays one with names if a member is put there. -/
theorem hasNames_insert {members : Members} {name : String}
    (h : (Value.map members).hasNames = true) (x : Value) :
    (Value.map (members.insert (.name name) x)).hasNames = true := by
  have hnodup := Members.nodup_keys_insert (nodup_keys_of_hasNames h) (.name name) x
  simp only [hasNames, Bool.and_eq_true, List.all_eq_true, decide_eq_true_eq] at h ⊢
  refine ⟨fun member hmember => ?_, hnodup⟩
  rcases Members.mem_insert hmember with rfl | hmember
  · rfl
  · exact h.1 member hmember

theorem child?_map {members : Members} (h : (Value.map members).hasNames = true) (key : Key) :
    (Value.map members).child? key = members.get? key := by
  cases key with
  | name name => rfl
  | index position =>
    rw [child?]
    · exact (Members.get?_eq_none_iff.mpr fun hmem => by
        obtain ⟨name, hname⟩ := exists_name_of_hasNames h hmem
        cases hname).symm
    all_goals simp

/-- A list that can be counted is so short that its positions can be read back. -/
theorem isLegible_of_lt {position : Nat} (h : position < maxListLength) :
    (Key.index position).isLegible = true := by
  have hlength : (Nat.toDigits 10 position).length ≤ 19 := by
    rw [Nat.length_toDigits_le_iff (by decide) (by decide)]
    exact Nat.lt_trans h (by decide)
  exact decide_eq_true (Nat.le_trans hlength (by decide))

/-- The keys that lead to a value in a document with legible names can be read back from their
    path. -/
theorem isLegible_of_get? (hnames : v.everywhere hasLegibleNames = true)
    (hlists : v.everywhere isCountable = true) (hget : v.get? keys = some w) :
    ∀ key ∈ keys, key.isLegible = true := by
  induction keys generalizing v with
  | nil => simp
  | cons key keys ih =>
    rw [get?_cons, Option.bind_eq_some_iff] at hget
    obtain ⟨child, hchild, hget⟩ := hget
    have hkey : key.isLegible = true := by
      cases v <;> cases key <;> simp only [child?, reduceCtorEq] at hchild
      · have hlength := test_of_everywhere hlists
        simp only [isCountable, decide_eq_true_eq] at hlength
        exact isLegible_of_lt (Nat.lt_of_lt_of_le (List.getElem?_eq_some_iff.mp hchild).1 hlength)
      · have hall := test_of_everywhere hnames
        simp only [hasLegibleNames, List.all_eq_true] at hall
        exact hall _ (Members.mem_of_get? hchild)
    intro k hk
    rcases List.mem_cons.mp hk with rfl | hk
    · exact hkey
    · exact ih (everywhere_of_child? hnames hchild) (everywhere_of_child? hlists hchild) hget k hk

end Value

/-- A read at a path is a read along its keys. -/
theorem getPath_eq_ok {path : String} {keys : List Key} (h : pathKeys path = .ok keys)
    (v : Value) : getPath v path = .ok (v.get? keys) := by
  rw [getPath, h]
  rfl

theorem exists_of_getPath {path : String} {v : Value} {found : Option Value}
    (h : getPath v path = .ok found) :
    ∃ keys, pathKeys path = .ok keys ∧ found = v.get? keys := by
  rw [getPath] at h
  cases hkeys : pathKeys path with
  | error fault =>
    rw [hkeys] at h
    cases h
  | ok keys =>
    rw [hkeys] at h
    cases h
    exact ⟨keys, rfl, rfl⟩

end ItemDelta
