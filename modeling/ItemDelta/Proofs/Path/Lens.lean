import ItemDelta.Proofs.Path.Inverse
import ItemDelta.Proofs.Path.Write

/-!
# Writes and removals along keys of any kind

A write along names and positions puts a value at its place and leaves every place apart from it as
it is, but for the nulls that a list is padded with. It fails only where a name meets a list, and
then it has changed nothing. A removal of what is there leaves nothing, or null in a list, and every
place apart as it is.

## Main definitions

* `Value.Suits` — each step of some keys leads into a container of its own kind, or into none.
* `Value.MapsAbove` — what stands above a place are maps.
* `Value.MeetsList`, `Value.MeetsMap` — a name meets a list, or a position a map.
* `IsPadding` — a place where a write pads a list.
* `IsAssigned`, `IsRemoved` — what a write, or a removal, leaves.

## Main results

* `exists_assign` — a write along keys that suit the document.
* `exists_assign_names` — a write along member names.
* `assign_of_meetsList` — a write that meets a list with a name.
* `exists_remove` — a removal of what is there.
* `setPath_removePath_lens` — the same for paths.
-/

namespace ItemDelta

/-- A place where a write along some keys pads a list: a position in a list on the way, in front of
    the position that the keys go on with. -/
def IsPadding (keys place : List Key) : Prop :=
  ∃ before i j after, keys = before ++ .index i :: after ∧ place = before ++ [.index j] ∧ j < i

theorem IsPadding.cons {keys place : List Key} (key : Key) (h : IsPadding keys place) :
    IsPadding (key :: keys) (key :: place) := by
  obtain ⟨before, i, j, after, rfl, rfl, hj⟩ := h
  exact ⟨key :: before, i, j, after, rfl, rfl, hj⟩

namespace Value

/-- Wherever some keys meet a container of a value, their next step is one of its kind: a name at a
    map, a position at a list. -/
def Suits (v : Value) (keys : List Key) : Prop :=
  ∀ before key after u, keys = before ++ key :: after → v.get? before = some u →
    u.isContainer = true → (emptyAbove key).sharesContainer u = true

/-- What stands strictly above a place are maps, if anything. -/
def MapsAbove (v : Value) (keys : List Key) : Prop :=
  ∀ before, before <+: keys → before ≠ keys → ∀ u, v.get? before = some u → u.kind = .map

/-- A name among some keys meets a list. -/
def MeetsList (v : Value) (keys : List Key) : Prop :=
  ∃ before name after items, keys = before ++ .name name :: after ∧
    v.get? before = some (.list items)

/-- A position among some keys meets a map. -/
def MeetsMap (v : Value) (keys : List Key) : Prop :=
  ∃ before position after members, keys = before ++ .index position :: after ∧
    v.get? before = some (.map members)

variable {v u w x : Value} {key next : Key} {keys : List Key}

theorem suits_iff : v.Suits keys ↔ ¬v.MeetsList keys ∧ ¬v.MeetsMap keys := by
  constructor
  · intro h
    constructor
    · rintro ⟨before, name, after, items, hkeys, hget⟩
      cases h before _ after _ hkeys hget rfl
    · rintro ⟨before, position, after, members, hkeys, hget⟩
      cases h before _ after _ hkeys hget rfl
  · rintro ⟨hlists, hmaps⟩ before key after u hkeys hget hu
    cases u <;> cases hu <;> cases key <;> first | rfl | skip
    · exact absurd ⟨before, _, after, _, hkeys, hget⟩ hlists
    · exact absurd ⟨before, _, after, _, hkeys, hget⟩ hmaps

theorem suits_nil (v : Value) : v.Suits [] := by
  intro before key after u hkeys
  simp at hkeys

theorem suits_cons_iff : v.Suits (key :: keys) ↔
    (v.isContainer = true → (emptyAbove key).sharesContainer v = true) ∧
      ∀ u, v.child? key = some u → u.Suits keys := by
  constructor
  · intro h
    refine ⟨h [] key keys v rfl (get?_nil v), fun u hu before k after w hkeys hget hw => ?_⟩
    refine h (key :: before) k after w (by rw [hkeys]; rfl) ?_ hw
    rw [get?_cons, hu]
    exact hget
  · rintro ⟨hhead, hbelow⟩ before k after w hkeys hget hw
    cases before with
    | nil =>
      obtain ⟨rfl, rfl⟩ := List.cons.inj hkeys
      rw [get?_nil, Option.some.injEq] at hget
      rw [← hget] at hw ⊢
      exact hhead hw
    | cons first before =>
      obtain ⟨rfl, htail⟩ := List.cons.inj hkeys
      rw [get?_cons, Option.bind_eq_some_iff] at hget
      obtain ⟨u, hu, hget⟩ := hget
      exact hbelow u hu before k after w htail hget hw

theorem Suits.head (h : v.Suits (key :: keys)) (hv : v.isContainer = true) :
    (emptyAbove key).sharesContainer v = true :=
  h [] key keys v rfl (get?_nil v) hv

theorem sharesContainer_emptyAbove_of_child? (h : v.child? key = some u) :
    (emptyAbove key).sharesContainer v = true := by
  cases v <;> cases key <;> first | rfl | cases h

/-- Names suit a document in which they meet maps only. -/
theorem MapsAbove.suits {names : List String} (h : v.MapsAbove (names.map .name)) :
    v.Suits (names.map .name) := by
  intro before key after u hkeys hget _
  have hkey : key ∈ names.map Key.name := hkeys ▸ List.mem_append_right _ List.mem_cons_self
  obtain ⟨name, -, rfl⟩ := List.mem_map.mp hkey
  have hkind := h before ⟨_, hkeys.symm⟩ (fun heq => by simp [← heq] at hkeys) u hget
  cases u <;> cases hkind
  rfl

theorem get?_singleton (v : Value) (key : Key) : v.get? [key] = v.child? key := by
  rw [get?_cons]
  cases v.child? key with
  | none => rfl
  | some u => exact get?_nil u

theorem isContainer_of_child? (h : v.child? key = some u) : v.isContainer = true := by
  cases v <;> first | rfl | cases h

/-- What leads to a container is one. -/
theorem isContainer_of_get? (h : v.get? keys = some u) (hu : u.isContainer = true) :
    v.isContainer = true := by
  cases keys with
  | nil =>
    rw [get?_nil, Option.some.injEq] at h
    exact h ▸ hu
  | cons key keys =>
    rw [get?_cons, Option.bind_eq_some_iff] at h
    obtain ⟨child, hchild, -⟩ := h
    exact isContainer_of_child? hchild

theorem held?_eq_child? (h : (emptyAbove key).sharesContainer v = true) :
    v.held? key = v.child? key := by
  cases v <;> cases key <;> first | rfl | cases h

/-! ### Below one step -/

theorem isContainer_containerFor (next : Key) (slot : Option Value) :
    (containerFor next slot).isContainer = true := by
  rcases slot with - | u
  · cases next <;> rfl
  · cases u <;> cases next <;> rfl

theorem containerFor_eq (next : Key) (slot : Option Value) :
    containerFor next slot = emptyAbove next ∨ slot = some (containerFor next slot) := by
  rcases slot with - | u
  · exact .inl rfl
  · cases u <;> first | exact .inl rfl | exact .inr rfl

theorem containerFor_of_isContainer (next : Key) (hu : u.isContainer = true) :
    containerFor next (some u) = u := by
  cases u <;> first | rfl | cases hu

/-- Where a write goes on, it reads what was there before. -/
theorem get?_containerFor (next : Key) (slot : Option Value) {place : List Key}
    (hplace : place ≠ []) : (containerFor next slot).get? place = slot.bind (·.get? place) := by
  obtain ⟨key, rest, rfl⟩ := List.exists_cons_of_ne_nil hplace
  rcases slot with - | u
  · cases next <;> cases key <;> rfl
  · cases u <;> cases next <;> cases key <;> rfl

/-- What is left of the keys below a step suits the container that the write goes on in. -/
theorem Suits.containerFor (h : v.Suits (key :: next :: keys)) :
    (containerFor next (v.child? key)).Suits (next :: keys) := by
  intro before k after u hkeys hget hu
  by_cases hbefore : before = []
  · subst hbefore
    obtain ⟨rfl, rfl⟩ := List.cons.inj hkeys
    rw [get?_nil, Option.some.injEq] at hget
    subst hget
    rcases containerFor_eq next (v.child? key) with heq | heq
    · rw [heq]
      cases next <;> rfl
    · exact h [key] next keys _ rfl ((get?_singleton v key).trans heq) hu
  · rw [get?_containerFor _ _ hbefore, ← get?_cons] at hget
    exact h (key :: before) k after u (by rw [hkeys]; rfl) hget hu

end Value

/-! ### One value put into a container -/

/-- A container once a value was put into it under a key: the value stands there, and what stands
    under other keys has not changed, but for positions that the container was padded up to. -/
structure IsPut (v w : Value) (key : Key) (x : Value) : Prop where
  self : w.child? key = some x
  other : ∀ k, k ≠ key → w.child? k = v.child? k ∨
    v.child? k = none ∧ w.child? k = some .null ∧ IsPadding [key] [k]
  named : v.everywhere Value.hasNames = true → x.everywhere Value.hasNames = true →
    w.everywhere Value.hasNames = true

section Put

variable {v u w x y : Value} {key next : Key} {keys : List Key}

theorem child?_padSet_of_ne (items : List Value) {i j : Nat} (hne : j ≠ i) (x : Value) :
    (Value.padSet items i x)[j]? = items[j]? ∨
      items[j]? = none ∧ (Value.padSet items i x)[j]? = some .null ∧ j < i := by
  rcases follows_padSet_of_ne hne x (.inl rfl) with heq | ⟨hnone, hnull⟩
  · exact .inl heq
  · refine .inr ⟨hnone, hnull, ?_⟩
    have hj := (List.getElem?_eq_some_iff.mp hnull).1
    have hlength := List.getElem?_eq_none_iff.mp hnone
    rw [length_padSet] at hj
    omega

theorem exists_place (h : (Value.emptyAbove key).sharesContainer v = true)
    (hmemory : ∀ position, key = .index position → position + 1 < Value.memoryListLength)
    (x : Value) : ∃ w, v.place key x = .ok w ∧ IsPut v w key x := by
  cases v <;> cases key <;> try cases h
  case list.index items i =>
    have hplace : (Value.list items).place (.index i) x = _ := place_index (.inr (hmemory i rfl)) x
    refine ⟨_, hplace, getElem?_padSet_self items i x, fun k hk => ?_, fun hv hx => ?_⟩
    · cases k with
      | name name => exact .inl rfl
      | index j =>
        refine (child?_padSet_of_ne items (fun heq => hk (congrArg Key.index heq)) x).imp_right ?_
        rintro ⟨hnone, hnull, hj⟩
        exact ⟨hnone, hnull, [], i, j, [], rfl, rfl, hj⟩
    · exact everywhere_of_place hv hx rfl hplace rfl
  case map.name members name =>
    refine ⟨_, rfl, Members.get?_insert_self members _ x, fun k hk => .inl ?_, fun hv hx => ?_⟩
    · cases k with
      | name other => exact Members.get?_insert_of_ne hk
      | index j => rfl
    · exact everywhere_of_place hv hx rfl rfl
        (Value.hasNames_insert (Value.test_of_everywhere hv) x)

/-- Apart from its key, a value put into a container changes no place, but for padding. -/
theorem IsPut.get?_of_ne (h : IsPut v w key x) {k : Key} (hk : k ≠ key) (keys rest : List Key) :
    w.get? (k :: rest) = v.get? (k :: rest) ∨
      v.get? (k :: rest) = none ∧ w.get? (k :: rest) = some .null ∧
        IsPadding (key :: keys) (k :: rest) := by
  rw [Value.get?_cons, Value.get?_cons]
  rcases h.other k hk with heq | ⟨hnone, hnull, hpadding⟩
  · exact .inl (by rw [heq])
  · rw [hnone, hnull, Option.bind_some, Option.bind_none]
    cases rest with
    | nil =>
      refine .inr ⟨rfl, Value.get?_nil _, ?_⟩
      obtain ⟨before, i, j, after, hkey, hplace, hj⟩ := hpadding
      obtain ⟨rfl, hi⟩ : before = [] ∧ key = .index i := by
        cases before <;> simp_all
      exact ⟨[], i, j, keys, by rw [hi]; rfl, hplace, hj⟩
    | cons next rest => exact .inl rfl

theorem Members.insert_eq_self {members : Members} (h : members.get? key = some x) :
    members.insert key x = members := by
  induction members with
  | nil => cases h
  | cons member rest ih =>
    obtain ⟨k, y⟩ := member
    rw [Members.get?_cons] at h
    rw [Members.insert]
    split at h
    · rename_i hk
      rw [if_pos hk, hk, Option.some.inj h]
    · rename_i hk
      rw [if_neg hk, ih h]

theorem set_eq_self {items : List Value} {i : Nat} (h : items[i]? = some x) :
    items.set i x = items := by
  obtain ⟨hi, rfl⟩ := List.getElem?_eq_some_iff.mp h
  exact List.set_getElem_self hi

/-- To put back what stands under a key changes nothing. -/
theorem place_child? (h : v.child? key = some u) : v.place key u = .ok v := by
  cases v <;> cases key <;> first | cases h | skip
  case list.index items i =>
    have hi : i < items.length := (List.getElem?_eq_some_iff.mp h).1
    rw [place_index (.inl hi), Value.padSet, if_pos hi, set_eq_self h]
  case map.name members name =>
    rw [Value.place, Members.insert_eq_self h]

end Put

/-! ### Writes -/

/-- A document once a value was written along some keys: the value stands at its place, and every
    place apart has not changed, but for nulls where there was nothing. -/
structure IsAssigned (v w : Value) (keys : List Key) (x : Value) : Prop where
  self : w.get? keys = some x
  apart : ∀ place, Apart keys place → w.get? place = v.get? place ∨
    v.get? place = none ∧ w.get? place = some .null ∧ IsPadding keys place
  named : v.everywhere Value.hasNames = true → x.everywhere Value.hasNames = true →
    w.everywhere Value.hasNames = true

section Writes

variable {v u w x y : Value} {key next : Key} {keys : List Key}

theorem IsPut.isAssigned (h : IsPut v w key x) : IsAssigned v w [key] x where
  self := by
    rw [Value.get?_cons, h.self]
    exact Value.get?_nil x
  apart place hplace := by
    obtain ⟨k, rest, rfl⟩ := List.exists_cons_of_ne_nil hplace.ne_nil
    refine h.get?_of_ne (fun hk => ?_) [] rest
    exact hplace.1 (hk ▸ List.cons_prefix_cons.mpr ⟨rfl, List.nil_prefix⟩)
  named := h.named

/-- What was written below a step, in the container that the write went on in, is put back there. -/
theorem IsAssigned.cons (h : IsAssigned (containerFor next (v.child? key)) y (next :: keys) x)
    (hput : IsPut v w key y) : IsAssigned v w (key :: next :: keys) x where
  self := by rw [Value.get?_cons, hput.self, Option.bind_some, h.self]
  apart place hplace := by
    obtain ⟨k, rest, rfl⟩ := List.exists_cons_of_ne_nil hplace.ne_nil
    by_cases hk : k = key
    · rw [hk] at hplace ⊢
      have hrest := apart_cons_iff.mp hplace
      rw [Value.get?_cons, hput.self, Option.bind_some, Value.get?_cons,
        ← Value.get?_containerFor next _ hrest.ne_nil]
      refine (h.apart rest hrest).imp_right ?_
      rintro ⟨hnone, hnull, hpadding⟩
      exact ⟨hnone, hnull, hpadding.cons key⟩
    · exact hput.get?_of_ne hk _ rest
  named hv hx := by
    refine hput.named hv (h.named ?_ hx)
    rcases Value.containerFor_eq next (v.child? key) with heq | heq
    · rw [heq]
      cases next <;> rfl
    · exact Value.everywhere_of_child? hv heq

/-- A write along keys that suit the document succeeds. -/
theorem exists_assign (hv : v.isContainer = true) (hne : keys ≠ []) (hsuits : v.Suits keys)
    (hmemory : ∀ position, .index position ∈ keys → position + 1 < Value.memoryListLength)
    (x : Value) : ∃ w, v.assign keys x = ⟨w, none⟩ ∧ IsAssigned v w keys x := by
  induction keys generalizing v with
  | nil => exact absurd rfl hne
  | cons key keys ih =>
    have hhead := hsuits.head hv
    have hplace := exists_place hhead fun position hposition =>
      hmemory position (hposition ▸ List.mem_cons_self)
    cases keys with
    | nil =>
      obtain ⟨w, hw, hput⟩ := hplace x
      exact ⟨w, Outcome.toExcept_eq_ok_iff.mp (assign_singleton.trans hw), hput.isAssigned⟩
    | cons next keys =>
      obtain ⟨y, hy, hwritten⟩ := ih (Value.isContainer_containerFor next _) (List.cons_ne_nil _ _)
        hsuits.containerFor fun position hposition =>
          hmemory position (List.mem_cons_of_mem key hposition)
      obtain ⟨z, hz, -⟩ := hplace (containerFor next (v.child? key))
      obtain ⟨w, hw, hput⟩ := hplace y
      rw [← Value.held?_eq_child? hhead] at hy hz
      exact ⟨w, assign_cons_of_place hz hy hw, hwritten.cons hput⟩

/-- A write along member names that meet maps only changes nothing apart from its place. -/
theorem exists_assign_names {names : List String} (hv : v.isContainer = true) (hne : names ≠ [])
    (habove : v.MapsAbove (names.map .name)) (x : Value) :
    ∃ w, (v.assign (names.map .name) x).toExcept = .ok w ∧ w.get? (names.map .name) = some x ∧
      ∀ place, Apart (names.map .name) place → w.get? place = v.get? place := by
  obtain ⟨w, hw, hassigned⟩ := exists_assign hv (mt List.map_eq_nil_iff.mp hne) habove.suits
    (by simp) x
  refine ⟨w, Outcome.toExcept_eq_ok_iff.mpr hw, hassigned.self, fun place hplace => ?_⟩
  rcases hassigned.apart place hplace with heq | ⟨-, -, before, i, j, after, hkeys, -⟩
  · exact heq
  · -- There is no position among names, so nothing is padded.
    have hkey : Key.index i ∈ names.map Key.name :=
      hkeys ▸ List.mem_append_right _ List.mem_cons_self
    simp at hkey

/-- A write that meets a list with a name fails, and has changed nothing. -/
theorem assign_of_meetsList (hmaps : ¬v.MeetsMap keys) (h : v.MeetsList keys) (x : Value) :
    v.assign keys x = ⟨v, some .wrongKind⟩ := by
  induction keys generalizing v with
  | nil =>
    obtain ⟨before, name, after, items, hkeys, -⟩ := h
    simp at hkeys
  | cons key keys ih =>
    obtain ⟨before, name, after, items, hkeys, hget⟩ := h
    cases before with
    | nil =>
      obtain ⟨rfl, rfl⟩ := List.cons.inj hkeys
      rw [Value.get?_nil, Option.some.injEq] at hget
      subst hget
      cases keys <;> rfl
    | cons k before =>
      -- The step leads to a container that the write goes on in, and that comes back unchanged.
      obtain ⟨rfl, hrest⟩ := List.cons.inj hkeys
      rw [Value.get?_cons, Option.bind_eq_some_iff] at hget
      obtain ⟨u, hu, hget⟩ := hget
      have hbelow := ih (v := u) (fun ⟨before, position, after, members, hkeys, hmap⟩ =>
        hmaps ⟨key :: before, position, after, members, by rw [hkeys]; rfl, by
          rw [Value.get?_cons, hu]
          exact hmap⟩) ⟨before, name, after, items, hrest, hget⟩
      have hcontainer := Value.isContainer_of_get? hget rfl
      have hheld : v.held? key = some u :=
        (Value.held?_eq_child? (Value.sharesContainer_emptyAbove_of_child? hu)).trans hu
      obtain ⟨next, rest, rfl⟩ : ∃ next rest, keys = next :: rest :=
        List.exists_cons_of_ne_nil (by rw [hrest]; simp)
      have hchild : containerFor next (v.held? key) = u := by
        rw [hheld, Value.containerFor_of_isContainer next hcontainer]
      have hput := place_child? hu
      exact assign_cons_of_place (hchild.symm ▸ hput) (hchild.symm ▸ hbelow) hput

end Writes

/-! ### Removals -/

/-- What stands in the place of a key once its value was removed. -/
def Key.remains : Key → Option Value
  | .name _ => none
  | .index _ => some .null

/-- A container once something else stands under one of its keys, or nothing: other keys keep their
    values, and a list keeps its length. -/
structure IsReplaced (v w : Value) (key : Key) (slot : Option Value) : Prop where
  self : w.child? key = slot
  other : ∀ k, k ≠ key → w.child? k = v.child? k
  length : ∀ items, v = .list items → ∃ others, w = .list others ∧ others.length = items.length

/-- A document once the value at the end of some keys was removed: nothing stands there, or null in
    a list, every place apart has not changed, and the lists at and above them have kept their
    length. -/
structure IsRemoved (v w : Value) (keys : List Key) : Prop where
  self : w.get? keys = keys.getLast?.bind Key.remains
  apart : ∀ place, Apart keys place → w.get? place = v.get? place
  length : ∀ place items, ¬keys <+: place → v.get? place = some (.list items) →
    ∃ others, w.get? place = some (.list others) ∧ others.length = items.length

section Removals

variable {v u w x y : Value} {key next : Key} {keys : List Key} {slot : Option Value}

theorem isReplaced_removeKey (hnames : v.hasNames = true) (h : v.child? key = some u) :
    ∃ w, v.removeKey key = .ok w ∧ IsReplaced v w key key.remains := by
  cases v <;> cases key <;> try cases h
  case list.index items i =>
    refine ⟨.list (items.set i .null), rfl, ?_, fun k hk => ?_, ?_⟩
    · exact List.getElem?_set_self (List.getElem?_eq_some_iff.mp h).1
    · cases k with
      | name name => rfl
      | index j => exact List.getElem?_set_ne fun heq => hk (congrArg Key.index heq.symm)
    · rintro _ ⟨⟩
      exact ⟨_, rfl, List.length_set⟩
  case map.name members name =>
    refine ⟨.map (Members.erase members (.name name)), rfl, ?_, fun k hk => ?_, nofun⟩
    · exact Members.get?_erase_self (Value.nodup_keys_of_hasNames hnames)
    · cases k with
      | name other => exact Members.get?_erase_of_ne hk
      | index j => rfl

theorem isReplaced_replaceChild (h : v.child? key = some u) (y : Value) :
    IsReplaced v (v.replaceChild key y) key (some y) := by
  cases v <;> cases key <;> try cases h
  case list.index items i =>
    refine ⟨List.getElem?_set_self (List.getElem?_eq_some_iff.mp h).1, fun k hk => ?_, ?_⟩
    · cases k with
      | name name => rfl
      | index j => exact List.getElem?_set_ne fun heq => hk (congrArg Key.index heq.symm)
    · rintro _ ⟨⟩
      exact ⟨_, rfl, List.length_set⟩
  case map.name members name =>
    refine ⟨Members.get?_insert_self members _ y, fun k hk => ?_, nofun⟩
    cases k with
    | name other => exact Members.get?_insert_of_ne hk
    | index j => rfl

theorem IsReplaced.get?_of_ne (h : IsReplaced v w key slot) {k : Key} (hk : k ≠ key)
    (rest : List Key) : w.get? (k :: rest) = v.get? (k :: rest) := by
  rw [Value.get?_cons, Value.get?_cons, h.other k hk]

theorem IsReplaced.isRemoved (h : IsReplaced v w key key.remains) : IsRemoved v w [key] where
  self := (Value.get?_singleton w key).trans h.self
  apart place hplace := by
    obtain ⟨k, rest, rfl⟩ := List.exists_cons_of_ne_nil hplace.ne_nil
    refine h.get?_of_ne (fun hk => ?_) rest
    exact hplace.1 (hk ▸ List.cons_prefix_cons.mpr ⟨rfl, List.nil_prefix⟩)
  length place items hplace hget := by
    cases place with
    | nil =>
      rw [Value.get?_nil, Option.some.injEq] at hget
      obtain ⟨others, rfl, hothers⟩ := h.length items hget
      exact ⟨others, Value.get?_nil _, hothers⟩
    | cons k rest =>
      have hk : k ≠ key := fun hk => hplace (hk ▸ List.cons_prefix_cons.mpr ⟨rfl, List.nil_prefix⟩)
      exact ⟨items, (h.get?_of_ne hk rest).trans hget, rfl⟩

/-- What was removed below a step is gone once the rest is put back there. -/
theorem IsRemoved.cons (hchild : v.child? key = some u) (h : IsRemoved u y (next :: keys))
    (hput : IsReplaced v w key (some y)) : IsRemoved v w (key :: next :: keys) where
  self := by
    rw [Value.get?_cons, hput.self, Option.bind_some, h.self, List.getLast?_cons_cons]
  apart place hplace := by
    obtain ⟨k, rest, rfl⟩ := List.exists_cons_of_ne_nil hplace.ne_nil
    by_cases hk : k = key
    · rw [hk] at hplace ⊢
      rw [Value.get?_cons, Value.get?_cons, hput.self, hchild, Option.bind_some,
        Option.bind_some, h.apart rest (apart_cons_iff.mp hplace)]
    · exact hput.get?_of_ne hk rest
  length place items hplace hget := by
    cases place with
    | nil =>
      rw [Value.get?_nil, Option.some.injEq] at hget
      obtain ⟨others, rfl, hothers⟩ := hput.length items hget
      exact ⟨others, Value.get?_nil _, hothers⟩
    | cons k rest =>
      by_cases hk : k = key
      · rw [hk] at hplace hget ⊢
        rw [Value.get?_cons, hchild, Option.bind_some] at hget
        rw [Value.get?_cons, hput.self, Option.bind_some]
        exact h.length rest items (fun hprefix => hplace (List.cons_prefix_cons.mpr ⟨rfl, hprefix⟩))
          hget
      · exact ⟨items, (hput.get?_of_ne hk rest).trans hget, rfl⟩

/-- A removal of what is there succeeds. -/
theorem exists_remove (hnames : v.everywhere Value.hasNames = true) (hne : keys ≠ [])
    (h : v.get? keys = some u) : ∃ w, v.remove keys = .ok w ∧ IsRemoved v w keys := by
  induction keys generalizing v with
  | nil => exact absurd rfl hne
  | cons key keys ih =>
    rw [Value.get?_cons, Option.bind_eq_some_iff] at h
    obtain ⟨child, hchild, h⟩ := h
    cases keys with
    | nil =>
      obtain ⟨w, hw, hreplaced⟩ := isReplaced_removeKey (Value.test_of_everywhere hnames) hchild
      exact ⟨w, remove_singleton.trans hw, hreplaced.isRemoved⟩
    | cons next keys =>
      obtain ⟨y, hy, hremoved⟩ :=
        ih (Value.everywhere_of_child? hnames hchild) (List.cons_ne_nil _ _) h
      refine ⟨v.replaceChild key y, ?_,
        hremoved.cons hchild (isReplaced_replaceChild hchild y)⟩
      rw [remove_cons hchild (List.cons_ne_nil _ _), hy]
      rfl

end Removals

/-! ### Paths -/

/-- A removal at a path is one along its keys, if the path of the parent can be read. -/
theorem removePath_eq_remove {path : String} {keys : List Key} (hpath : pathKeys path = .ok keys)
    (hparents : ∀ key ∈ keys.dropLast, key.isLegible = true) (v : Value) :
    removePath v path = v.remove keys := by
  rw [removePath, hpath, Value.remove]
  cases hlast : keys.getLast? with
  | none => simp [hlast, bind, Except.bind]
  | some key => simp [hlast, bind, Except.bind, pathKeys_pathText hparents]

theorem setPath_eq_assign {path : String} {keys : List Key} (hpath : pathKeys path = .ok keys)
    (v x : Value) : setPath v path x = v.assign keys x := by
  rw [setPath, hpath]

/-- Keys that were read from a path can be read again, if no name ends in an overlooked line
    feed. -/
theorem isLegible_of_pathKeys_of_feeds {path : String} {keys : List Key}
    (hpath : pathKeys path = .ok keys) (hfeeds : ∀ key ∈ keys, ¬key.EndsInFeed) :
    ∀ key ∈ keys, key.isLegible = true :=
  (forall_isLegible_iff (isLegible_of_pathKeys hpath)).mpr hfeeds

/-- Writes and removals at a path behave like a lens, where no position of the path meets a map, its
    positions are in memory and no line feed is overlooked in it. A write fails just if a name meets
    a list, and then changes nothing; otherwise the value is read at the path, and at every path
    apart what was read before, or null where a list was padded. A removal of what is there leaves
    nothing at a member and null at an element, what is read at paths apart, and the lengths of
    lists. -/
theorem setPath_removePath_lens {document : Value} {path : String} {keys : List Key}
    (hcontainer : document.isContainer = true)
    (hnames : document.everywhere Value.hasNames = true) (hpath : pathKeys path = .ok keys)
    (hne : keys ≠ []) (hmaps : ¬document.MeetsMap keys)
    (hmemory : ∀ position, .index position ∈ keys → position + 1 < Value.memoryListLength)
    (hfeeds : ∀ key ∈ keys, ¬key.EndsInFeed) (v : Value) :
    ((setPath document path v).error = some .wrongKind ↔ document.MeetsList keys) ∧
    (document.MeetsList keys → (setPath document path v).document = document) ∧
    (¬document.MeetsList keys → ∃ after, setPath document path v = ⟨after, none⟩ ∧
      getPath after path = .ok (some v) ∧
      ∀ other place, pathKeys other = .ok place → Apart keys place →
        getPath after other = getPath document other ∨
          getPath document other = .ok none ∧ getPath after other = .ok (some .null) ∧
            IsPadding keys place) ∧
    (∀ u, getPath document path = .ok (some u) → ∃ after, removePath document path = .ok after ∧
      getPath after path = .ok (keys.getLast?.bind Key.remains) ∧
      (∀ other place, pathKeys other = .ok place → Apart keys place →
        getPath after other = getPath document other) ∧
      ∀ other place items, pathKeys other = .ok place → ¬keys <+: place →
        getPath document other = .ok (some (.list items)) →
          ∃ others, getPath after other = .ok (some (.list others)) ∧
            others.length = items.length) := by
  have hwrite : ¬document.MeetsList keys → ∃ after, setPath document path v = ⟨after, none⟩ ∧
      IsAssigned document after keys v := by
    intro hlists
    rw [setPath_eq_assign hpath]
    exact exists_assign hcontainer hne (Value.suits_iff.mpr ⟨hlists, hmaps⟩) hmemory v
  have hfail : document.MeetsList keys → setPath document path v = ⟨document, some .wrongKind⟩ := by
    intro hlists
    rw [setPath_eq_assign hpath]
    exact assign_of_meetsList hmaps hlists v
  refine ⟨⟨fun herror => ?_, fun hlists => by rw [hfail hlists]⟩, fun hlists => by
    rw [hfail hlists], fun hlists => ?_, fun u hget => ?_⟩
  · by_contra hlists
    obtain ⟨after, hset, -⟩ := hwrite hlists
    rw [hset] at herror
    cases herror
  · obtain ⟨after, hset, hwritten⟩ := hwrite hlists
    refine ⟨after, hset, ?_, fun other place hother hapart => ?_⟩
    · rw [getPath_eq_ok hpath, hwritten.self]
    · simp only [getPath_eq_ok hother, Except.ok.injEq]
      exact hwritten.apart place hapart
  · rw [getPath_eq_ok hpath, Except.ok.injEq] at hget
    obtain ⟨after, hremove, hremoved⟩ := exists_remove hnames hne hget
    have hlegible := isLegible_of_pathKeys_of_feeds hpath hfeeds
    refine ⟨after, ?_, ?_, fun other place hother hapart => ?_,
      fun other place items hother hplace hlist => ?_⟩
    · rw [removePath_eq_remove hpath fun key hkey => hlegible key (List.dropLast_subset _ hkey),
        hremove]
    · rw [getPath_eq_ok hpath, hremoved.self]
    · rw [getPath_eq_ok hother, getPath_eq_ok hother, hremoved.apart place hapart]
    · rw [getPath_eq_ok hother, Except.ok.injEq] at hlist
      obtain ⟨others, hothers, hlength⟩ := hremoved.length place items hplace hlist
      exact ⟨others, by rw [getPath_eq_ok hother, hothers], hlength⟩

/-- A write behind the end of a list pads it, a name at a list is refused, and the removal of an
    element leaves null. -/
theorem setPath_removePath_of_list :
    let document : Value := .ofNamed [("a", .list [.int 1, .text "x"]), ("b", .int 2)]
    (∃ after, setPath document "$.a[4].n" (.int 5) = ⟨after, none⟩ ∧
      getPath after "$.a[4].n" = .ok (some (.int 5)) ∧
      getPath after "$.a[1]" = .ok (some (.text "x")) ∧
      (getPath after "$.a[3]" = .ok none ∨ getPath after "$.a[3]" = .ok (some .null))) ∧
    (setPath document "$.a.n" (.int 5)).error = some .wrongKind ∧
    ∃ after, removePath document "$.a[0]" = .ok after ∧ getPath after "$.a[0]" = .ok (some .null) ∧
      ∃ others, getPath after "$.a" = .ok (some (.list others)) ∧ others.length = 2 := by
  intro document
  have hpath : ∀ {path : String} {keys : List Key}, path = pathText keys →
      (∀ key ∈ keys, key.isLegible = true) → pathKeys path = .ok keys := fun htext hkeys => by
    rw [htext, pathKeys_pathText hkeys]
  have hcontainer : document.isContainer = true := rfl
  have hnames : document.everywhere Value.hasNames = true := by decide
  have hlens := fun (path : String) (keys : List Key) (htext : path = pathText keys)
      (hkeys : ∀ key ∈ keys, key.isLegible = true) (hne : keys ≠ [])
      (hpositions : ∀ i, .index i ∈ keys → i ≤ 4) (hmaps : ¬document.MeetsMap keys) =>
    setPath_removePath_lens hcontainer hnames (hpath htext hkeys) hne hmaps
      (fun i hi => Nat.lt_of_le_of_lt (Nat.succ_le_succ (hpositions i hi)) (by decide))
      ((forall_isLegible_iff fun _ hposition => hkeys _ hposition).mp hkeys) (.int 5)
  have hsuits : ∀ i rest, rest = [] ∨ i = 4 → document.Suits (.name "a" :: .index i :: rest) := by
    refine fun i rest hrest => Value.suits_cons_iff.mpr ⟨fun _ => rfl, fun u hu => ?_⟩
    cases hu
    refine Value.suits_cons_iff.mpr ⟨fun _ => rfl, fun w hw => ?_⟩
    rcases hrest with rfl | rfl
    · exact Value.suits_nil w
    · cases hw
  refine ⟨?_, ?_, ?_⟩
  · obtain ⟨hlists, hmaps⟩ := Value.suits_iff.mp (hsuits 4 [.name "n"] (.inr rfl))
    obtain ⟨after, hset, hself, hapart⟩ := (hlens "$.a[4].n" _ (by decide) (by decide)
      (by simp) (by simp) hmaps).2.2.1 hlists
    have hone : pathKeys "$.a[1]" = .ok [.name "a", .index 1] := hpath (by decide) (by decide)
    have hthree : pathKeys "$.a[3]" = .ok [.name "a", .index 3] := hpath (by decide) (by decide)
    refine ⟨after, hset, hself, ?_, ?_⟩
    · rcases hapart _ _ hone (by simp [Apart]) with heq | ⟨hnone, -⟩
      · rw [heq, getPath_eq_ok hone]
        rfl
      · rw [getPath_eq_ok hone] at hnone
        cases hnone
    · rcases hapart _ _ hthree (by simp [Apart]) with heq | ⟨-, hnull, -⟩
      · rw [heq, getPath_eq_ok hthree]
        exact .inl rfl
      · exact .inr hnull
  · refine (hlens "$.a.n" [.name "a", .name "n"] (by decide) (by decide) (by simp) (by simp)
      ?_).1.mpr ⟨[.name "a"], "n", [], _, rfl, rfl⟩
    rintro ⟨before, i, after, members, hkeys, -⟩
    have hmem : Key.index i ∈ [Key.name "a", .name "n"] := hkeys ▸ by simp
    simp at hmem
  · obtain ⟨-, hmaps⟩ := Value.suits_iff.mp (hsuits 0 [] (.inl rfl))
    have hzero : pathKeys "$.a[0]" = .ok [.name "a", .index 0] := hpath (by decide) (by decide)
    have ha : pathKeys "$.a" = .ok [.name "a"] := hpath (by decide) (by decide)
    obtain ⟨after, hremove, hself, -, hlength⟩ := (hlens "$.a[0]" _ (by decide) (by decide)
      (by simp) (by simp) hmaps).2.2.2 (.int 1) (by rw [getPath_eq_ok hzero]; rfl)
    refine ⟨after, hremove, hself, ?_⟩
    exact hlength "$.a" [.name "a"] [.int 1, .text "x"] ha (by simp) (by rw [getPath_eq_ok ha]; rfl)

end ItemDelta
