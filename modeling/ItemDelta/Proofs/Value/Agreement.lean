import ItemDelta.Proofs.Number.Value
import ItemDelta.Proofs.Value.Document

/-!
# Agreement of containers

Containers agree if what they hold agrees, key by key. A value without NaN agrees with itself.

## Main definitions

* `Value.IsCongruence` — a relation of values that containers inherit from what they hold.
* `Value.IsSelfRelated` — a value all of whose parts are related to themselves.

## Main results

* `Value.agrees_list_iff`, `Value.agrees_map_of_get?` — agreement of containers.
* `Value.agrees_self` — a value without NaN agrees with itself.
-/

namespace ItemDelta

namespace Value

variable {v w : Value} {vs ws : List Value} {members others : Members}

theorem agreesMembers_iff : agreesMembers members others = true ↔
    ∀ key v, (key, v) ∈ members → ∃ w, Members.get? others key = some w ∧ v.agrees w = true := by
  induction members with
  | nil => simp [agreesMembers]
  | cons member members ih =>
    obtain ⟨k, v⟩ := member
    rw [agreesMembers, Bool.and_eq_true, ih]
    constructor
    · rintro ⟨hv, hrest⟩ key x hx
      rcases List.mem_cons.mp hx with heq | hx
      · rw [Prod.mk.injEq] at heq
        obtain ⟨rfl, rfl⟩ := heq
        cases hget : Members.get? others key with
        | none => simp [hget] at hv
        | some w => exact ⟨w, rfl, by simpa [hget] using hv⟩
      · exact hrest key x hx
    · intro h
      obtain ⟨w, hget, hw⟩ := h k v List.mem_cons_self
      exact ⟨by rw [hget]; exact hw, fun key x hx => h key x (List.mem_cons_of_mem _ hx)⟩

theorem agrees_list_iff : (Value.list vs).agrees (.list ws) = true ↔
    vs.length = ws.length ∧
      ∀ (i : Nat) (v w : Value), vs[i]? = some v → ws[i]? = some w → v.agrees w = true := by
  rw [agrees]
  induction vs generalizing ws with
  | nil => cases ws <;> simp [agreesList]
  | cons v vs ih =>
    cases ws with
    | nil => simp [agreesList]
    | cons w ws =>
      rw [agreesList, Bool.and_eq_true, ih, List.length_cons, List.length_cons, Nat.succ_inj]
      constructor
      · rintro ⟨hvw, hlength, hrest⟩
        refine ⟨hlength, fun i x y hx hy => ?_⟩
        cases i with
        | zero =>
          rw [List.getElem?_cons_zero, Option.some.injEq] at hx hy
          rwa [← hx, ← hy]
        | succ i => exact hrest i x y hx hy
      · rintro ⟨hlength, h⟩
        exact ⟨h 0 v w rfl rfl, hlength, fun i x y hx hy => h (i + 1) x y hx hy⟩

/-- Maps agree if lookups of any key find nothing in both, or values that agree. -/
theorem agrees_map_of_get? (hkeys : members.keys.Nodup) (hothers : others.keys.Nodup)
    (h : ∀ key, Option.Rel (fun v w => v.agrees w = true) (Members.get? members key)
      (Members.get? others key)) :
    (Value.map members).agrees (.map others) = true := by
  have hperm : members.keys.Perm others.keys := Members.keys_perm_of_rel hkeys hothers h
  have hlength : members.length = others.length := by
    simpa [Members.keys] using hperm.length_eq
  rw [agrees, Bool.and_eq_true, beq_iff_eq, agreesMembers_iff]
  refine ⟨hlength, fun key v hv => ?_⟩
  have hrel := h key
  rw [(Members.get?_eq_some_iff hkeys).mpr hv] at hrel
  cases hw : Members.get? others key with
  | none => rw [hw] at hrel; cases hrel
  | some w =>
    rw [hw] at hrel
    cases hrel with
    | some hagrees => exact ⟨w, rfl, hagrees⟩

theorem agreesElements_of_agrees_self (hvs : ∀ v ∈ vs, v ∈ ws) (h : ∀ v ∈ vs, v.agrees v = true) :
    agreesElements vs ws = true := by
  induction vs with
  | nil => rw [agreesElements]
  | cons v vs ih =>
    rw [agreesElements, Bool.and_eq_true, List.any_eq_true]
    exact ⟨⟨v, hvs v (by simp), h v (by simp)⟩,
      ih (fun w hw => hvs w (by simp [hw])) fun w hw => h w (by simp [hw])⟩

theorem agrees_eq_agreesNumerically {d : Decimal} (hd : v.toDecimal? = some d) :
    v.agrees w = v.agreesNumerically w := by
  cases v <;> simp only [toDecimal?, reduceCtorEq] at hd <;> rw [agrees] <;> simp

theorem agrees_self_of_toDecimal? {d : Decimal} (hd : v.toDecimal? = some d)
    (hnan : ∀ negative signaling payload, d ≠ .nan negative signaling payload) :
    v.agrees v = true := by
  rw [agrees_eq_agreesNumerically hd, agreesNumerically, hd]
  simp [Decimal.compare?_self hnan]

theorem agrees_int_iff {n m : Int} : (int n).agrees (.int m) = true ↔ n = m := by
  rw [agrees_eq_agreesNumerically rfl, agreesNumerically, toDecimal?, toDecimal?, beq_iff_eq,
    Decimal.compare?_ofInt_eq_iff]

/-- A value without NaN agrees with itself. -/
theorem agrees_self (v : Value) (hnames : v.everywhere hasNames = true)
    (hnan : v.everywhere isNonNan = true) : v.agrees v = true := by
  match v with
  | .null => simp [agrees]
  | .text s => simp [agrees]
  | .bool b => exact agrees_self_of_toDecimal? rfl (by simp [Decimal.ofInt])
  | .int n => exact agrees_self_of_toDecimal? rfl (by simp [Decimal.ofInt])
  | .float x =>
    refine agrees_self_of_toDecimal? rfl fun negative signaling payload heq => ?_
    have hx := test_of_everywhere hnan
    cases x with
    | nan => cases hx
    | infinite negative => simp [Binary64.toDecimal] at heq
    | finite negative mantissa exponent =>
      rw [Binary64.toDecimal] at heq
      split at heq <;> cases heq
  | .decimal d =>
    refine agrees_self_of_toDecimal? rfl fun negative signaling payload heq => ?_
    have hd := test_of_everywhere hnan
    subst heq
    cases hd
  | .list items =>
    simp only [everywhere, Bool.and_eq_true, everywhereItems_iff] at hnames hnan
    refine agrees_list_iff.mpr ⟨rfl, fun i v w hv hw => ?_⟩
    rw [hv, Option.some.injEq] at hw
    have hmem := List.mem_of_getElem? hv
    exact hw ▸ agrees_self v (hnames.2 v hmem) (hnan.2 v hmem)
  | .map members =>
    have hkeys := nodup_keys_of_hasNames (test_of_everywhere hnames)
    simp only [everywhere, Bool.and_eq_true, everywhereMembers_iff] at hnames hnan
    refine agrees_map_of_get? hkeys hkeys fun key => ?_
    cases hv : Members.get? members key with
    | none => exact .none
    | some v =>
      have hmem := Members.mem_of_get? hv
      exact .some (agrees_self v (hnames.2 key v hmem) (hnan.2 key v hmem))
  | .set elements =>
    simp only [everywhere, Bool.and_eq_true, everywhereItems_iff] at hnames hnan
    have helements : agreesElements elements elements = true :=
      agreesElements_of_agrees_self (fun v hv => hv) fun v hv =>
        agrees_self v (hnames.2 v hv) (hnan.2 v hv)
    simp [agrees, helements]
termination_by sizeOf v
decreasing_by
  · have := List.sizeOf_lt_of_mem hmem
    rw [Value.list.sizeOf_spec]
    omega
  · have := List.sizeOf_lt_of_mem hmem
    rw [Prod.mk.sizeOf_spec] at this
    rw [Value.map.sizeOf_spec]
    omega
  · have := List.sizeOf_lt_of_mem hv
    rw [Value.set.sizeOf_spec]
    omega

/-! ### Relations that containers inherit -/

/-- Containers of one kind are related if what they hold is, key by key. -/
structure IsCongruence (related : Value → Value → Prop) : Prop where
  null : related .null .null
  list : ∀ {vs ws : List Value}, vs.length = ws.length →
    (∀ (i : Nat) (v w : Value), vs[i]? = some v → ws[i]? = some w → related v w) →
    related (.list vs) (.list ws)
  map : ∀ {members others : Members}, members.keys.Nodup → others.keys.Nodup →
    (∀ key, Option.Rel related (members.get? key) (others.get? key)) →
    related (.map members) (.map others)

/-- A value with names as keys, all of whose parts are related to themselves. -/
structure IsSelfRelated (related : Value → Value → Prop) (v : Value) : Prop where
  named : v.everywhere hasNames = true
  parts : ∀ keys w, v.get? keys = some w → related w w

theorem isCongruence_agrees : IsCongruence fun v w => v.agrees w = true where
  null := by simp [agrees]
  list hlength h := agrees_list_iff.mpr ⟨hlength, h⟩
  map := agrees_map_of_get?

section SelfRelated

variable {related : Value → Value → Prop} {key : Key}

theorem IsSelfRelated.self (h : v.IsSelfRelated related) : related v v :=
  h.parts [] v (get?_nil v)

theorem IsSelfRelated.child (h : v.IsSelfRelated related) (hw : v.child? key = some w) :
    w.IsSelfRelated related where
  named := everywhere_of_child? h.named hw
  parts keys x hx := h.parts (key :: keys) x (by rw [get?_cons, hw, Option.bind_some, hx])

/-- A value without NaN agrees with itself in all its parts. -/
theorem isSelfRelated_agrees (hnames : v.everywhere hasNames = true)
    (hnan : v.everywhere isNonNan = true) : v.IsSelfRelated fun v w => v.agrees w = true where
  named := hnames
  parts _ w hw := agrees_self w (everywhere_of_get? hnames hw) (everywhere_of_get? hnan hw)

end SelfRelated

end Value

end ItemDelta
