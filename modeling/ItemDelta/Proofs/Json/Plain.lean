import ItemDelta.Json.Writer
import ItemDelta.Proofs.Node.Selection
import ItemDelta.Proofs.Number.Value
import ItemDelta.Proofs.Value.Reordering

/-!
# Plain forms

The plain form of a document is the document itself, with its integral decimals as integers, its
sets as ascending lists and its members in key order. The order that the members had is not seen in
it.

## Main definitions

* `Value.isWritable` — what has a plain form without a loss.
* `Value.listed` — a value with integers for integral decimals and ascending lists for sets.

## Main results

* `Value.sortMembers_reordered` — putting members in key order is a reordering.
* `Value.plainForm_eq_of_reordered` — reordered values have one plain form.
* `Value.sortElements_map_int` — the integers of a set in order.
* `Value.plainForm_of_isWritable` — the plain form of a document.
-/

namespace ItemDelta

/-! ### The order of keys -/

theorem Key.not_lt_total (k l : Key) : k.lt l = false ∨ l.lt k = false := by
  cases k <;> cases l <;> simp only [Key.lt, decide_eq_false_iff_not]
  · exact (String.le_total _ _).symm.imp String.not_lt.mpr String.not_lt.mpr
  · exact .inl trivial
  · exact .inr trivial
  · omega

theorem Key.not_lt_trans {k l m : Key} (hkl : l.lt k = false) (hlm : m.lt l = false) :
    m.lt k = false := by
  cases k <;> cases l <;> cases m <;> simp_all only [Key.lt, decide_eq_false_iff_not, reduceCtorEq]
  · exact String.not_lt.mpr (String.le_trans (String.not_lt.mp hkl) (String.not_lt.mp hlm))
  · omega

theorem Key.eq_of_not_lt {k l : Key} (hkl : l.lt k = false) (hlk : k.lt l = false) : k = l := by
  cases k <;> cases l <;> simp_all only [Key.lt, decide_eq_false_iff_not, reduceCtorEq]
  · rw [Key.name.injEq]
    exact String.le_antisymm (String.not_lt.mp hkl) (String.not_lt.mp hlk)
  · rw [Key.index.injEq]
    omega

namespace Value

section Sorted

variable {α β : Type} {members others : List (Key × α)}

theorem sortedByKey_perm (members : List (Key × α)) : (sortedByKey members).Perm members :=
  List.mergeSort_perm members _

/-- Key order does not look at what is held under the keys. -/
theorem sortedByKey_map (g : Key × α → β) (members : List (Key × α)) :
    sortedByKey (members.map fun member => (member.1, g member)) =
      (sortedByKey members).map fun member => (member.1, g member) := by
  symm
  apply List.map_mergeSort
  intros
  rfl

theorem pairwise_sortedByKey (members : List (Key × α)) :
    (sortedByKey members).Pairwise fun a b => b.1.lt a.1 = false := by
  have hsorted : (members.mergeSort fun a b => !b.1.lt a.1).Pairwise
      fun a b => (!b.1.lt a.1) = true := by
    apply List.pairwise_mergeSort
    · intro a b c hab hbc
      rw [Bool.not_eq_true'] at *
      exact Key.not_lt_trans hab hbc
    · intro a b
      rw [Bool.or_eq_true, Bool.not_eq_true', Bool.not_eq_true']
      exact Key.not_lt_total b.1 a.1
  apply hsorted.imp
  intro a b hab
  rwa [Bool.not_eq_true'] at hab

/-- Where each key stands once, key order forgets the order before. -/
theorem sortedByKey_eq_of_perm (h : members.Perm others) (hkeys : (members.map (·.1)).Nodup) :
    sortedByKey members = sortedByKey others := by
  have hperm : (sortedByKey members).Perm (sortedByKey others) :=
    ((sortedByKey_perm members).trans h).trans (sortedByKey_perm others).symm
  apply hperm.eq_of_pairwise _ (pairwise_sortedByKey members) (pairwise_sortedByKey others)
  intro a b ha hb hab hba
  -- neither key precedes the other one, so both are one key, which stands once
  have ha' := (sortedByKey_perm members).mem_iff.mp ha
  have hb' := h.mem_iff.mpr ((sortedByKey_perm others).mem_iff.mp hb)
  exact List.inj_on_of_nodup_map hkeys ha' hb' (Key.eq_of_not_lt hab hba)

end Sorted

/-! ### Reordered values -/

section Reordered

variable {v w : Value} {members others : Members}

theorem plainForms_eq_map (vs : List Value) : plainForms vs = vs.map plainForm := by
  induction vs with
  | nil => rfl
  | cons v vs ih => rw [plainForms, ih, List.map_cons]

theorem plainMembers_eq_map (members : Members) :
    plainMembers members = members.map fun member => (member.1, plainForm member.2) := by
  induction members with
  | nil => rfl
  | cons member members ih => rw [plainMembers, ih, List.map_cons]

theorem checkKeys_eq_ok (h : ∀ key ∈ members.keys, ∃ name, key = .name name) :
    checkKeys members = .ok () := by
  rw [checkKeys]
  apply if_neg
  rw [Bool.and_eq_true, not_and, Bool.not_eq_true, List.any_eq_false]
  intro _ member hmember
  obtain ⟨name, hname⟩ := h member.1 (List.mem_map_of_mem hmember)
  simp [hname]

theorem mem_map_of_get? {α : Type} {f : Value → α} (hkeys : members.keys.Perm others.keys)
    (hnodup : members.keys.Nodup)
    (h : ∀ key v w, members.get? key = some v → others.get? key = some w → f v = f w)
    {held : Key × α} (hheld : held ∈ members.map fun member => (member.1, f member.2)) :
    held ∈ others.map fun member => (member.1, f member.2) := by
  obtain ⟨⟨key, v⟩, hmember, rfl⟩ := List.mem_map.mp hheld
  have hkey : key ∈ others.keys := hkeys.mem_iff.mp (Members.mem_keys_of_mem hmember)
  obtain ⟨w, hw⟩ := Option.isSome_iff_exists.mp (Members.get?_isSome_iff.mpr hkey)
  have hv := (Members.get?_eq_some_iff hnodup).mpr hmember
  rw [show f v = f w from h key v w hv hw]
  exact List.mem_map_of_mem (f := fun member => (member.1, f member.2)) (Members.mem_of_get? hw)

/-- Where lookups lead to values that a function does not tell apart, its results are held under the
    same keys. -/
theorem map_perm_of_get? {α : Type} {f : Value → α} (hkeys : members.keys.Perm others.keys)
    (hnodup : members.keys.Nodup)
    (h : ∀ key v w, members.get? key = some v → others.get? key = some w → f v = f w) :
    (members.map fun member => (member.1, f member.2)).Perm
      (others.map fun member => (member.1, f member.2)) := by
  have hnodup' : others.keys.Nodup := hkeys.nodup_iff.mp hnodup
  have hdistinct : ∀ {l : Members}, l.keys.Nodup →
      (l.map fun member => (member.1, f member.2)).Nodup := by
    intro l hl
    apply List.Nodup.of_map (·.1)
    rw [List.map_map]
    exact hl
  rw [List.perm_ext_iff_of_nodup (hdistinct hnodup) (hdistinct hnodup')]
  intro held
  exact ⟨mem_map_of_get? hkeys hnodup h,
    mem_map_of_get? hkeys.symm hnodup' fun key w v hw hv => (h key v w hv hw).symm⟩

/-- The plain form does not show in which order a map holds its members. -/
theorem plainForm_eq_of_reordered (h : v.Reordered w) (hnames : v.everywhere hasNames = true) :
    v.plainForm = w.plainForm := by
  induction h with
  | leaf _ => rfl
  | @list vs ws hlength _ ih =>
    simp only [everywhere, Bool.and_eq_true, everywhereItems_iff] at hnames
    have hforms : vs.map plainForm = ws.map plainForm := by
      apply List.ext_getElem
      · rw [List.length_map, List.length_map, hlength]
      · intro i hi hi'
        rw [List.getElem_map, List.getElem_map]
        exact ih i _ _ (List.getElem?_eq_getElem _) (List.getElem?_eq_getElem _)
          (hnames.2 _ (List.getElem_mem _))
    rw [plainForm, plainForm, plainForms_eq_map, plainForms_eq_map, hforms]
  | @map members others hkeys _ ih =>
    have hnodup := nodup_keys_of_hasNames (test_of_everywhere hnames)
    have hnamed : ∀ key ∈ members.keys, ∃ name, key = .name name := fun key hkey =>
      exists_name_of_hasNames (test_of_everywhere hnames) hkey
    simp only [everywhere, Bool.and_eq_true, everywhereMembers_iff] at hnames
    have hperm := map_perm_of_get? hkeys hnodup fun key v w hv hw =>
      ih key v w hv hw (hnames.2 key v (Members.mem_of_get? hv))
    have hsorted := sortedByKey_eq_of_perm hperm (by rw [List.map_map]; exact hnodup)
    rw [plainForm, plainForm, checkKeys_eq_ok hnamed,
      checkKeys_eq_ok fun key hkey => hnamed key (hkeys.mem_iff.mpr hkey), plainMembers_eq_map,
      plainMembers_eq_map, hsorted]

theorem sortItems_eq_map (vs : List Value) : sortItems vs = vs.map sortMembers := by
  induction vs with
  | nil => rfl
  | cons v vs ih => rw [sortItems, ih, List.map_cons]

theorem sortValues_eq_map (members : Members) :
    sortValues members = members.map fun member => (member.1, sortMembers member.2) := by
  induction members with
  | nil => rfl
  | cons member members ih => rw [sortValues, ih, List.map_cons]

/-- Putting members in key order is a reordering. -/
theorem sortMembers_reordered (v : Value) (hnames : v.everywhere hasNames = true) :
    v.sortMembers.Reordered v := by
  induction v using containerInduction with
  | leaf v hv =>
    have hsame : v.sortMembers = v := by cases v <;> first | rfl | cases hv
    rw [hsame]
    exact .leaf hv
  | list items ih =>
    simp only [everywhere, Bool.and_eq_true, everywhereItems_iff] at hnames
    rw [sortMembers, sortItems_eq_map]
    refine .list (List.length_map _) fun i x y hx hy => ?_
    rw [List.getElem?_map, hy, Option.map_some, Option.some.injEq] at hx
    have hmem := List.mem_of_getElem? hy
    exact hx ▸ ih y hmem (hnames.2 y hmem)
  | map members ih =>
    have hnodup := nodup_keys_of_hasNames (test_of_everywhere hnames)
    simp only [everywhere, Bool.and_eq_true, everywhereMembers_iff] at hnames
    rw [sortMembers, sortValues_eq_map]
    have hperm := sortedByKey_perm (members.map fun member => (member.1, sortMembers member.2))
    refine .map ?_ fun key x y hx hy => ?_
    · have hkeys := hperm.map (·.1)
      rwa [List.map_map] at hkeys
    · have hmem := hperm.mem_iff.mp (Members.mem_of_get? hx)
      obtain ⟨⟨other, z⟩, hz, heq⟩ := List.mem_map.mp hmem
      rw [Prod.mk.injEq] at heq
      obtain ⟨rfl, rfl⟩ := heq
      have hget := (Members.get?_eq_some_iff hnodup).mpr hz
      rw [hget, Option.some.injEq] at hy
      exact hy ▸ ih other z hz (hnames.2 other z hz)

end Reordered

/-! ### The order of elements -/

theorem elementLe_int (n m : Int) : elementLe (.int n) (.int m) = decide (n ≤ m) := by
  have hcmp := Decimal.compare?_eq_cmp (Decimal.value?_ofInt n) (Decimal.value?_ofInt m)
  rw [Bool.eq_iff_iff, decide_eq_true_iff]
  show (_ != some Ordering.gt) = true ↔ n ≤ m
  rw [hcmp, bne_iff_ne, ne_eq, Option.some_inj, cmp_eq_gt_iff, Int.cast_lt, not_lt]

/-- Integers are put in order by size. -/
theorem sortElements_map_int (ns : List Int) :
    sortElements (ns.map .int) = (ns.mergeSort fun n m => n ≤ m).map .int := by
  symm
  apply List.map_mergeSort
  intro n _ m _
  exact (elementLe_int n m).symm

/-! ### Trees with names as keys -/

/-- A value whose maps have names as keys, each name once, and of which a test holds everywhere. -/
structure IsTreeOf (test : Value → Bool) (v : Value) : Prop where
  named : v.everywhere hasNames = true
  held : v.everywhere test = true

section Trees

variable {test : Value → Bool} {v : Value} {items elements : List Value} {members others : Members}

theorem IsTreeOf.root (h : IsTreeOf test v) : test v = true := test_of_everywhere h.held

theorem IsTreeOf.hasNames (h : IsTreeOf test v) : v.hasNames = true := test_of_everywhere h.named

theorem IsTreeOf.item (h : IsTreeOf test (.list items)) (hv : v ∈ items) : IsTreeOf test v := by
  obtain ⟨hnamed, hheld⟩ := h
  simp only [everywhere, Bool.and_eq_true, everywhereItems_iff] at hnamed hheld
  exact ⟨hnamed.2 v hv, hheld.2 v hv⟩

theorem IsTreeOf.member (h : IsTreeOf test (.map members)) {key : Key} (hv : (key, v) ∈ members) :
    IsTreeOf test v := by
  obtain ⟨hnamed, hheld⟩ := h
  simp only [everywhere, Bool.and_eq_true, everywhereMembers_iff] at hnamed hheld
  exact ⟨hnamed.2 key v hv, hheld.2 key v hv⟩

theorem IsTreeOf.element (h : IsTreeOf test (.set elements)) (hv : v ∈ elements) :
    IsTreeOf test v := by
  obtain ⟨hnamed, hheld⟩ := h
  simp only [everywhere, Bool.and_eq_true, everywhereItems_iff] at hnamed hheld
  exact ⟨hnamed.2 v hv, hheld.2 v hv⟩

theorem isTreeOf_list (htest : test (.list items) = true) (h : ∀ v ∈ items, IsTreeOf test v) :
    IsTreeOf test (.list items) := by
  constructor <;> simp only [everywhere, Bool.and_eq_true, everywhereItems_iff]
  · exact ⟨rfl, fun v hv => (h v hv).named⟩
  · exact ⟨htest, fun v hv => (h v hv).held⟩

theorem isTreeOf_map (hnames : (Value.map members).hasNames = true)
    (htest : test (.map members) = true)
    (h : ∀ key v, (key, v) ∈ members → IsTreeOf test v) : IsTreeOf test (.map members) := by
  constructor <;> simp only [everywhere, Bool.and_eq_true, everywhereMembers_iff]
  · exact ⟨hnames, fun key v hv => (h key v hv).named⟩
  · exact ⟨htest, fun key v hv => (h key v hv).held⟩

/-- Whether the keys are names depends on nothing but the keys. -/
theorem hasNames_of_keys_perm (hkeys : members.keys.Perm others.keys)
    (h : (Value.map members).hasNames = true) : (Value.map others).hasNames = true := by
  rw [Value.hasNames, Bool.and_eq_true, List.all_eq_true, decide_eq_true_eq]
  constructor
  · intro member hmember
    have hkey := hkeys.mem_iff.mpr (List.mem_map_of_mem hmember)
    obtain ⟨name, hname⟩ := exists_name_of_hasNames h hkey
    rw [hname]
  · exact hkeys.nodup_iff.mp (nodup_keys_of_hasNames h)

/-- What holds everywhere still does when members are put in key order, if it depends on no more of
    a map than its keys. -/
theorem IsTreeOf.sortMembers (hlist : ∀ items, test (.list items) = true)
    (hmap : ∀ members others : Members, members.keys.Perm others.keys →
      test (.map members) = true → test (.map others) = true)
    (h : IsTreeOf test v) : IsTreeOf test v.sortMembers := by
  induction v using containerInduction with
  | leaf v hv =>
    have hsame : v.sortMembers = v := by cases v <;> first | rfl | cases hv
    rwa [hsame]
  | list items ih =>
    rw [Value.sortMembers, sortItems_eq_map]
    apply isTreeOf_list (hlist _)
    intro w hw
    obtain ⟨v, hv, rfl⟩ := List.mem_map.mp hw
    exact ih v hv (h.item hv)
  | map members ih =>
    rw [Value.sortMembers, sortValues_eq_map, sortedByKey_map]
    have hkeys : (Members.keys members).Perm (Members.keys
        ((sortedByKey members).map fun member => (member.1, member.2.sortMembers))) := by
      rw [Members.keys, Members.keys, List.map_map]
      exact ((sortedByKey_perm members).map _).symm
    refine isTreeOf_map (hasNames_of_keys_perm hkeys h.hasNames) (hmap _ _ hkeys h.root)
      fun key w hw => ?_
    obtain ⟨⟨other, v⟩, hv, heq⟩ := List.mem_map.mp hw
    rw [Prod.mk.injEq] at heq
    have hmem := (sortedByKey_perm members).mem_iff.mp hv
    exact heq.2 ▸ ih other v hmem (h.member hmem)

end Trees

/-! ### Values that can be written -/

/-- Whether a value is written without a loss: integers, and decimals equal to an integer, that are
    not too long; sets of nothing but texts or nothing but integers; and no binary numbers. -/
def isWritable : Value → Bool
  | .int n => !isLongInteger n
  | .decimal d => d.toInt?.any fun n => !isLongInteger n
  | .float _ => false
  | .set elements => elements.all (·.kind = .text) || elements.all (·.kind = .int)
  | _ => true

/-- A value that is written without a loss, with names as keys and each of them once. -/
abbrev IsWritable : Value → Prop := IsTreeOf isWritable

/-- Whether a value has one way to be written and is read back from it: all but binary numbers,
    decimals, sets and integers that are too long. -/
def isPlain : Value → Bool
  | .int n => !isLongInteger n
  | .float _ | .decimal _ | .set _ => false
  | _ => true

/-- A value that is read back as it is, with names as keys and each of them once. -/
abbrev IsPlain : Value → Prop := IsTreeOf isPlain

mutual

/-- A value with the equal integer for every integral decimal, and for every set the list of its
    elements in ascending order. -/
def listed : Value → Value
  | .decimal d =>
    match d.toInt? with
    | some n => .int n
    | none => .decimal d
  | .list items => .list (listedItems items)
  | .map members => .map (listedMembers members)
  | .set elements => .list (sortElements elements)
  | v => v

/-- Several values, each with integers and lists. -/
def listedItems : List Value → List Value
  | [] => []
  | v :: vs => listed v :: listedItems vs

/-- Several members, their values with integers and lists. -/
def listedMembers : List (Key × Value) → List (Key × Value)
  | [] => []
  | (key, v) :: members => (key, listed v) :: listedMembers members

end

section Writable

variable {v w : Value} {items elements : List Value} {members : Members} {d : Decimal} {n : Int}

theorem listedItems_eq_map (vs : List Value) : listedItems vs = vs.map listed := by
  induction vs with
  | nil => rfl
  | cons v vs ih => rw [listedItems, ih, List.map_cons]

theorem listedMembers_eq_map (members : Members) :
    listedMembers members = members.map fun member => (member.1, listed member.2) := by
  induction members with
  | nil => rfl
  | cons member members ih => rw [listedMembers, ih, List.map_cons]

/-- A power of ten that is compared with a natural number as a rational is one. -/
theorem le_of_ten_zpow_le {limit k : Nat} (h : (10 : ℚ) ^ (limit : Int) ≤ k) :
    Nat.pow 10 limit ≤ k := by
  rw [zpow_natCast] at h
  exact_mod_cast h

/-- An integral decimal that is not too long has the equal integer as its plain form. -/
theorem plainDecimal_of_toInt? (hd : d.toInt? = some n) (hn : isLongInteger n = false) :
    plainDecimal d = .ok (.int n) := by
  cases d with
  | infinite negative => cases hd
  | nan negative signaling payload => cases hd
  | finite negative c e =>
    -- the guard against expanding a large power of ten lets every short integer pass
    have hshort : ¬(c ≠ 0 ∧ 0 ≤ e ∧ integerDigitLimit < Decimal.magnitude c e) := by
      rintro ⟨hc, -, hlong⟩
      have hvalue := Decimal.toInt?_eq_some_iff.mp hd
      rw [Decimal.value?, Option.some.injEq] at hvalue
      have habs : (c : ℚ) * 10 ^ e = n.natAbs := by
        rw [Nat.cast_natAbs, Int.cast_abs, ← hvalue, abs_mul, Decimal.abs_signed,
          abs_of_pos (ten_zpow_pos e)]
      have hlow : (10 : ℚ) ^ (integerDigitLimit : Int) ≤ c * 10 ^ e := by
        rw [ten_zpow_le_iff (Decimal.scaled_pos hc e)]
        rw [Decimal.magnitude_eq hc] at hlong
        omega
      rw [isLongInteger, decide_eq_false_iff_not] at hn
      unfold firstLongInteger at hn
      rw [habs] at hlow
      exact hn (le_of_ten_zpow_le hlow)
    rw [plainDecimal, if_neg hshort, hd]
    dsimp only
    rw [hn, if_neg Bool.false_ne_true]

/-- Sets of nothing but texts or nothing but integers can be put in order. -/
theorem checkOrdered_eq_ok (h : (Value.set elements).isWritable = true) :
    checkOrdered elements = .ok () := by
  rw [checkOrdered]
  by_cases hlength : elements.length < 2
  · exact if_pos hlength
  · rw [if_neg hlength]
    by_cases htexts : elements.all (·.kind = .text) = true
    · exact if_pos htexts
    · rw [isWritable, Bool.or_eq_true, or_iff_right htexts, List.all_eq_true] at h
      have hint : ∀ v ∈ elements, ∃ n, v = .int n := by
        intro v hv
        have hkind := of_decide_eq_true (h v hv)
        cases v <;> first | exact ⟨_, rfl⟩ | cases hkind
      have hnumbers : elements.all (·.toDecimal?.isSome) = true := by
        rw [List.all_eq_true]
        intro v hv
        obtain ⟨n, rfl⟩ := hint v hv
        rfl
      have hnan : ¬elements.any isDecimalNan = true := by
        rw [List.any_eq_true]
        rintro ⟨v, hv, hnan⟩
        obtain ⟨n, rfl⟩ := hint v hv
        cases hnan
      rw [if_neg htexts, if_pos hnumbers, if_neg hnan]

/-- The elements of a set that can be written are texts, or integers that are not too long. -/
theorem element_cases (h : (Value.set elements).IsWritable) (hv : v ∈ elements) :
    (∃ s, v = .text s) ∨ ∃ n, v = .int n ∧ isLongInteger n = false := by
  have hset := h.root
  rw [isWritable, Bool.or_eq_true, List.all_eq_true, List.all_eq_true] at hset
  have hkind : v.kind = .text ∨ v.kind = .int :=
    hset.imp (fun h => of_decide_eq_true (h v hv)) fun h => of_decide_eq_true (h v hv)
  have hheld := (h.element hv).root
  cases v with
  | text s => exact .inl ⟨s, rfl⟩
  | int n =>
    rw [isWritable, Bool.not_eq_true'] at hheld
    exact .inr ⟨n, rfl, hheld⟩
  | _ => simp only [kind, reduceCtorEq, or_self] at hkind

theorem mem_sortElements : v ∈ sortElements elements ↔ v ∈ elements :=
  (List.mergeSort_perm elements elementLe).mem_iff

/-- Elements are put in order with what belongs to them. -/
theorem sortedByElement_map {α : Type} (f : Value → α) (elements : List Value) :
    sortedByElement (elements.map fun v => (v, f v)) =
      (sortElements elements).map fun v => (v, f v) := by
  symm
  apply List.map_mergeSort
  intros
  rfl

/-- The plain form of a set is the list of its elements in ascending order. -/
theorem plainForm_set (h : (Value.set elements).IsWritable) :
    plainForm (.set elements) = .ok (.list (sortElements elements)) := by
  have hforms : ∀ v ∈ sortElements elements, v.plainForm = .ok (id v) := by
    intro v hv
    obtain ⟨s, rfl⟩ | ⟨n, rfl, hn⟩ := element_cases h (mem_sortElements.mp hv)
    · rfl
    · rw [plainForm, hn, if_neg Bool.false_ne_true, id]
  have hzip : elements.zip (elements.map plainForm) = elements.map fun v => (v, plainForm v) :=
    List.map_prod_left_eq_zip.symm
  rw [plainForm, checkOrdered_eq_ok h.root, plainForms_eq_map, hzip,
    sortedByElement_map]
  show Except.map Value.list (List.mapM _ (List.map _ _)) = _
  rw [List.mapM_map]
  show Except.map Value.list ((sortElements elements).mapM plainForm) = _
  rw [mapM_eq_ok hforms, List.map_id]
  rfl

/-- The plain form of a value that can be written: decimals are integers, sets are lists, and
    members are in key order. -/
theorem plainForm_of_isWritable (h : v.IsWritable) : v.plainForm = .ok v.listed.sortMembers := by
  induction v using containerInduction with
  | leaf v hv =>
    have hheld := h.root
    cases v with
    | null => rfl
    | bool b => rfl
    | text s => rfl
    | float x => cases hheld
    | list items => cases hv
    | map members => cases hv
    | int n =>
      rw [isWritable, Bool.not_eq_true'] at hheld
      rw [plainForm, hheld, if_neg Bool.false_ne_true]
      rfl
    | decimal d =>
      rw [isWritable, Option.any_eq_true] at hheld
      obtain ⟨n, hd, hn⟩ := hheld
      rw [Bool.not_eq_true'] at hn
      simp only [plainForm, listed, hd]
      exact plainDecimal_of_toInt? hd hn
    | set elements =>
      have hsame : ∀ v ∈ sortElements elements, sortMembers v = id v := by
        intro v hv
        obtain ⟨s, rfl⟩ | ⟨n, rfl, -⟩ := element_cases h (mem_sortElements.mp hv) <;> rfl
      rw [plainForm_set h, listed, sortMembers, sortItems_eq_map, List.map_congr_left hsame,
        List.map_id]
  | list items ih =>
    have hforms := mapM_eq_ok (f := plainForm) (g := fun v => v.listed.sortMembers)
      fun v hv => ih v hv (h.item hv)
    rw [plainForm, plainForms_eq_map, List.mapM_map]
    show (items.mapM plainForm).map Value.list = _
    rw [hforms, listed, listedItems_eq_map, sortMembers, sortItems_eq_map, List.map_map]
    rfl
  | map members ih =>
    have hnamed : ∀ key ∈ Members.keys members, ∃ name, key = .name name := fun key hkey =>
      exists_name_of_hasNames h.hasNames hkey
    have hforms : ∀ member ∈ sortedByKey members,
        (plainForm member.2).map (member.1, ·) = .ok (member.1, member.2.listed.sortMembers) := by
      intro member hmember
      have hmember' := (sortedByKey_perm members).mem_iff.mp hmember
      rw [ih member.1 member.2 hmember' (h.member hmember')]
      rfl
    rw [plainForm, checkKeys_eq_ok hnamed, plainMembers_eq_map, sortedByKey_map]
    show Except.map Value.map (List.mapM _ (List.map _ _)) = _
    rw [List.mapM_map]
    show Except.map Value.map ((sortedByKey members).mapM fun member =>
      (plainForm member.2).map (member.1, ·)) = _
    rw [mapM_eq_ok hforms, listed, listedMembers_eq_map, sortMembers, sortValues_eq_map,
      List.map_map]
    show _ = Except.ok (Value.map (sortedByKey (members.map fun member =>
      (member.1, member.2.listed.sortMembers))))
    rw [sortedByKey_map]
    rfl

/-- What can be written is plain once integers stand for decimals and lists for sets. -/
theorem isPlain_listed (h : v.IsWritable) : v.listed.IsPlain := by
  induction v using containerInduction with
  | leaf v hv =>
    have hheld := h.root
    cases v with
    | null => exact ⟨rfl, rfl⟩
    | bool b => exact ⟨rfl, rfl⟩
    | text s => exact ⟨rfl, rfl⟩
    | float x => cases hheld
    | list items => cases hv
    | map members => cases hv
    | int n => exact ⟨rfl, hheld⟩
    | decimal d =>
      rw [isWritable, Option.any_eq_true] at hheld
      obtain ⟨n, hd, hn⟩ := hheld
      simp only [listed, hd]
      exact ⟨rfl, hn⟩
    | set elements =>
      rw [listed]
      apply isTreeOf_list rfl
      intro v hv
      obtain ⟨s, rfl⟩ | ⟨n, rfl, hn⟩ := element_cases h (mem_sortElements.mp hv)
      · exact ⟨rfl, rfl⟩
      · exact ⟨rfl, by simp [everywhere, isPlain, hn]⟩
  | list items ih =>
    rw [listed, listedItems_eq_map]
    apply isTreeOf_list rfl
    intro w hw
    obtain ⟨v, hv, rfl⟩ := List.mem_map.mp hw
    exact ih v hv (h.item hv)
  | map members ih =>
    rw [listed, listedMembers_eq_map]
    refine isTreeOf_map (hasNames_of_keys_perm ?_ h.hasNames) rfl fun key w hw => ?_
    · rw [Members.keys, Members.keys, List.map_map]
      exact .refl _
    · obtain ⟨⟨other, v⟩, hv, heq⟩ := List.mem_map.mp hw
      rw [Prod.mk.injEq] at heq
      exact heq.2 ▸ ih other v hv (h.member hv)

end Writable

end Value

end ItemDelta
