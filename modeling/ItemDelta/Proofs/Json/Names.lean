import ItemDelta.Json.Reader
import ItemDelta.Proofs.Action
import ItemDelta.Proofs.Value.Document

/-!
# Names in what is read

A map that was read has names as keys, and each name once: a member whose name comes again is put
in the place of the first.

## Main results

* `hasNames_of_readJson` — what is read from a JSON text has names as keys, at every depth.
-/

namespace ItemDelta

open Value

theorem hasNames_emptyMap : emptyMap.everywhere hasNames = true := by decide

/-- A map that has names everywhere keeps them if a member is put there that has them too. -/
theorem everywhere_hasNames_insert {members : Members} {v : Value} (name : String)
    (hmembers : (Value.map members).everywhere hasNames = true)
    (hv : v.everywhere hasNames = true) :
    (Value.map (members.insert (.name name) v)).everywhere hasNames = true := by
  have hroot : (Value.map (members.insert (.name name) v)).hasNames = true :=
    hasNames_insert (test_of_everywhere hmembers) v
  simp only [everywhere, Bool.and_eq_true, everywhereMembers_iff] at hmembers ⊢
  refine ⟨hroot, fun key w hmem => ?_⟩
  rcases Members.mem_insert hmem with heq | hmem
  · cases heq
    exact hv
  · exact hmembers.2 key w hmem

namespace Json

variable {numbers : Numbers} {text rest : List Char} {v : Value}

theorem hasNames_of_ofNumeral {numeral : Numeral} (h : ofNumeral numbers numeral = .ok v) :
    v.everywhere hasNames = true := by
  unfold ofNumeral at h
  split at h
  · dsimp only at h
    split at h <;> cases h
    rfl
  · split at h
    · split at h <;> cases h
      rfl
    · cases h
      rfl

theorem hasNames_of_readScalar (h : readScalar numbers text = .ok (v, rest)) :
    v.everywhere hasNames = true := by
  unfold readScalar at h
  split at h
  · rename_i found hfound
    cases h
    obtain ⟨⟨word, value⟩, hmem, hfound⟩ := List.exists_of_findSome?_eq_some hfound
    obtain ⟨_, -, heq⟩ := Option.map_eq_some_iff.mp hfound
    cases heq
    -- The values of the words are listed.
    have hwords : ∀ entry ∈ words, entry.2.everywhere hasNames = true := by decide
    exact hwords _ hmem
  · split at h
    · rename_i numeral _ _
      cases hnumeral : ofNumeral numbers numeral with
      | error fault =>
        rw [hnumeral] at h
        cases h
      | ok w =>
        rw [hnumeral] at h
        cases h
        exact hasNames_of_ofNumeral hnumeral
    · cases h

/-- What is read in a number of steps has names, be it a value, several elements, or members behind
    others that have them. -/
theorem hasNames_of_read (numbers : Numbers) (steps : Nat) :
    (∀ {text v rest}, readValue numbers steps text = .ok (v, rest) →
      v.everywhere hasNames = true) ∧
    (∀ {text items rest}, readItems numbers steps text = .ok (items, rest) →
      everywhereItems hasNames items = true) ∧
    ∀ {members result : Members} {text rest}, (Value.map members).everywhere hasNames = true →
      readMembers numbers members steps text = .ok (result, rest) →
      (Value.map result).everywhere hasNames = true := by
  induction steps with
  | zero => exact ⟨nofun, nofun, nofun⟩
  | succ steps ih =>
    obtain ⟨hvalue, hitems, hmembers⟩ := ih
    refine ⟨fun {text v rest} h => ?_, fun {text items rest} h => ?_,
      fun {members result text rest} hnames h => ?_⟩
    · unfold readValue at h
      split at h
      · split at h <;> cases h
        rfl
      · split at h
        · cases h
          rfl
        · obtain ⟨⟨items, _⟩, hread, heq⟩ := exists_of_bind_eq_ok h
          cases heq
          exact hitems hread
      · split at h
        · cases h
          exact hasNames_emptyMap
        · obtain ⟨⟨members, _⟩, hread, heq⟩ := exists_of_bind_eq_ok h
          cases heq
          exact hmembers hasNames_emptyMap hread
      · exact hasNames_of_readScalar h
    · obtain ⟨⟨item, after⟩, hread, h⟩ := exists_of_bind_eq_ok h
      have hitem := hvalue hread
      dsimp only at h
      split at h
      · cases h
        rw [everywhereItems, hitem]
        rfl
      · obtain ⟨⟨items, _⟩, hrest, heq⟩ := exists_of_bind_eq_ok h
        cases heq
        rw [everywhereItems, hitem, hitems hrest]
        rfl
      · cases h
    · obtain ⟨⟨name, after⟩, -, h⟩ := exists_of_bind_eq_ok h
      obtain ⟨⟨value, after⟩, hread, h⟩ := exists_of_bind_eq_ok h
      have hinsert := everywhere_hasNames_insert name hnames (hvalue hread)
      dsimp only at h
      split at h
      · cases h
        exact hinsert
      · exact hmembers hinsert h
      · cases h

end Json

theorem hasNames_of_readJson {numbers : Numbers} {text : String} {v : Value}
    (h : readJson numbers text = .ok v) : v.everywhere hasNames = true := by
  obtain ⟨⟨value, rest⟩, hread, h⟩ := exists_of_bind_eq_ok h
  dsimp only at h
  split at h <;> cases h
  exact (Json.hasNames_of_read numbers _).1 hread

end ItemDelta
