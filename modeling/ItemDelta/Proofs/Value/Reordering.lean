import ItemDelta.Proofs.Value.Agreement

/-!
# Reordered members

Two values can be one and the same but for the order in which their maps hold their members. This
tells apart what agreement does not: numbers that are represented in different ways. A NaN is the
same as itself.

## Main definitions

* `Value.Reordered` — two values are the same but for the order of members.

## Main results

* `Value.Reordered.refl`, `Value.Reordered.symm`, `Value.Reordered.trans` — an equivalence.
* `Value.isCongruence_reordered` — containers inherit it from what they hold.
-/

namespace ItemDelta

namespace Value

/-- Two values are the same but for the order in which maps hold their members. -/
inductive Reordered : Value → Value → Prop where
  | leaf {v : Value} : v.isContainer = false → Reordered v v
  | list {vs ws : List Value} : vs.length = ws.length →
      (∀ (i : Nat) (v w : Value), vs[i]? = some v → ws[i]? = some w → Reordered v w) →
      Reordered (.list vs) (.list ws)
  | map {members others : Members} : members.keys.Perm others.keys →
      (∀ key v w, members.get? key = some v → others.get? key = some w → Reordered v w) →
      Reordered (.map members) (.map others)

namespace Reordered

variable {u v w : Value}

theorem refl (v : Value) : v.Reordered v := by
  induction v using containerInduction with
  | leaf v hv => exact .leaf hv
  | list items ih =>
    refine .list rfl fun i v w hv hw => ?_
    rw [hv, Option.some.injEq] at hw
    exact hw ▸ ih v (List.mem_of_getElem? hv)
  | map members ih =>
    refine .map (.refl _) fun key v w hv hw => ?_
    rw [hv, Option.some.injEq] at hw
    exact hw ▸ ih key v (Members.mem_of_get? hv)

theorem symm (h : v.Reordered w) : w.Reordered v := by
  induction h with
  | leaf hv => exact .leaf hv
  | list hlength _ ih => exact .list hlength.symm fun i x y hx hy => ih i y x hy hx
  | map hkeys _ ih => exact .map hkeys.symm fun key x y hx hy => ih key y x hy hx

theorem trans (h : u.Reordered v) (h' : v.Reordered w) : u.Reordered w := by
  induction h generalizing w with
  | leaf _ => exact h'
  | @list us vs hlength _ ih =>
    cases h' with
    | leaf hv => cases hv
    | list hlength' hitems =>
      refine .list (hlength.trans hlength') fun i x z hx hz => ?_
      have hi : i < vs.length := hlength ▸ (List.getElem?_eq_some_iff.mp hx).1
      have hy : vs[i]? = some vs[i] := List.getElem?_eq_getElem hi
      exact ih i x _ hx hy (hitems i _ z hy hz)
  | @map members others hkeys _ ih =>
    cases h' with
    | leaf hv => cases hv
    | map hkeys' hmembers =>
      refine .map (hkeys.trans hkeys') fun key x z hx hz => ?_
      have hkey : key ∈ others.keys :=
        hkeys.mem_iff.mp (Members.mem_keys_of_mem (Members.mem_of_get? hx))
      obtain ⟨y, hy⟩ := Option.isSome_iff_exists.mp (Members.get?_isSome_iff.mpr hkey)
      exact ih key x y hx hy (hmembers key y z hy hz)

end Reordered

theorem isCongruence_reordered : IsCongruence Reordered where
  null := .leaf rfl
  list := .list
  map hkeys hothers h := by
    refine .map (Members.keys_perm_of_rel hkeys hothers h) fun key v w hv hw => ?_
    have hkey := h key
    rw [hv, hw] at hkey
    exact Option.rel_some_some.mp hkey

theorem isSelfRelated_reordered {v : Value} (h : v.everywhere hasNames = true) :
    v.IsSelfRelated Reordered where
  named := h
  parts _ w _ := .refl w

end Value

end ItemDelta
