import ItemDelta.Proofs.Action
import ItemDelta.Proofs.Diff.Structural

/-!
# Applying edits

Edits are applied to a document one after the other. What they make of the value below one key
depends only on the edits whose first key it is, so the run of a list of edits on a container comes
apart into a run for each key.

## Main definitions

* `Edit.run`, `runEdits` — the application of edits to a value.
* `Edit.runSlot`, `runSlotEdits` — their application to a place that may hold no value.
* `editsBelow` — the edits below a key.

## Main results

* `exists_runEdits_map`, `exists_runEdits_list` — the run on a container, key by key.
-/

namespace ItemDelta

/-- A value after the removal of what stands at the end of a list of keys. -/
def Value.remove (v : Value) (keys : List Key) : Except Error Value :=
  match keys.getLast? with
  | none => .error .rootRemoved
  | some key => v.removeAt keys.dropLast key

/-- A value after an edit. -/
def Edit.run (c : Edit) (v : Value) : Except Error Value :=
  if c.bucket = .delete then v.remove c.keys else (v.assign c.keys c.value).toExcept

/-- A value after several edits. -/
def runEdits (edits : List Edit) (v : Value) : Except Error Value :=
  edits.foldlM (fun v c => c.run v) v

/-- The container that a write along a key goes on in. -/
def containerFor (key : Key) : Option Value → Value
  | some (.list items) => .list items
  | some (.map members) => .map members
  | _ => Value.emptyAbove key

/-- A place after an edit. Deletions need a value there, writes create what is missing. -/
def Edit.runSlot (c : Edit) (slot : Option Value) : Except Error (Option Value) :=
  if c.bucket = .delete then
    match c.keys, slot with
    | _, none => .error .wrongKind
    | [], some _ => .ok none
    | _ :: _, some v => (v.remove c.keys).map some
  else
    match c.keys with
    | [] => .ok (some c.value)
    | key :: _ => ((containerFor key slot).assign c.keys c.value).toExcept.map some

/-- A place after several edits. -/
def runSlotEdits (edits : List Edit) (slot : Option Value) : Except Error (Option Value) :=
  edits.foldlM (fun slot c => c.runSlot slot) slot

/-- The element at a position of a list follows what stands at a place, where null in the list can
    stand for nothing at the place. -/
def Follows (items : List Value) (position : Nat) (slot : Option Value) : Prop :=
  items[position]? = slot ∨ slot = none ∧ items[position]? = some .null

/-- The edit that is left below a key. -/
def Edit.below? (key : Key) (c : Edit) : Option Edit :=
  match c.keys with
  | [] => none
  | k :: keys => if k = key then some { c with keys := keys } else none

/-- The edits below a key. -/
def editsBelow (key : Key) (edits : List Edit) : List Edit := edits.filterMap (Edit.below? key)

section Below

variable {key other : Key} {c d : Edit} {edits : List Edit}

theorem below?_eq_some_iff : c.below? key = some d ↔ c = d.below key := by
  obtain ⟨bucket, keys, v⟩ := c
  obtain ⟨bucket', keys', v'⟩ := d
  cases keys with
  | nil => simp [Edit.below?, Edit.below]
  | cons k keys =>
    rw [Edit.below?, Option.ite_none_right_eq_some, Option.some.injEq, Edit.below]
    simp only [Edit.mk.injEq, List.cons.injEq]
    tauto

theorem mem_editsBelow : d ∈ editsBelow key edits ↔ d.below key ∈ edits := by
  rw [editsBelow, List.mem_filterMap]
  simp only [below?_eq_some_iff, exists_eq_right]

theorem editsBelow_cons_self :
    editsBelow key (d.below key :: edits) = d :: editsBelow key edits := by
  rw [editsBelow, List.filterMap_cons, below?_eq_some_iff.mpr rfl]
  rfl

theorem editsBelow_cons_of_ne (h : other ≠ key) :
    editsBelow key (d.below other :: edits) = editsBelow key edits := by
  have hnone : (d.below other).below? key = none := by
    rw [Edit.below?, Edit.below]
    exact if_neg h
  rw [editsBelow, List.filterMap_cons, hnone]
  rfl

end Below

/-! ### One edit -/

section Steps

variable {c : Edit} {key : Key} {v w : Value} {slot r : Option Value}

theorem Outcome.toExcept_eq_ok_iff {outcome : Outcome} :
    outcome.toExcept = .ok v ↔ outcome = ⟨v, none⟩ := by
  obtain ⟨document, error⟩ := outcome
  cases error <;> simp [Outcome.toExcept]

/-- A removal further down is one from the value below, which is put back. -/
theorem remove_cons {keys : List Key} (h : v.child? key = some w) (hne : keys ≠ []) :
    v.remove (key :: keys) = (w.remove keys).map (v.replaceChild key) := by
  obtain ⟨next, rest, rfl⟩ := List.exists_cons_of_ne_nil hne
  simp only [Value.remove, List.getLast?_cons_cons, List.dropLast_cons_cons]
  cases hlast : (next :: rest).getLast? with
  | none => simp at hlast
  | some last =>
    show v.removeAt (key :: (next :: rest).dropLast) last =
      (w.removeAt (next :: rest).dropLast last).map (v.replaceChild key)
    rw [Value.removeAt, h]

theorem remove_singleton : v.remove [key] = v.removeKey key := by
  rw [Value.remove]
  exact Value.removeAt.eq_1 v key

/-- A write goes on below its first step, and what it leaves there is put back, even if it fails. -/
theorem assign_cons_of_place {keys : List Key} {value x y : Value} {next : Key}
    {fault : Option Error} (hstart : v.place key (containerFor next (v.held? key)) = .ok x)
    (hbelow : (containerFor next (v.held? key)).assign (next :: keys) value = ⟨y, fault⟩)
    (hput : v.place key y = .ok w) : v.assign (key :: next :: keys) value = ⟨w, fault⟩ := by
  have hbelow : Value.assignBelow (containerFor next (v.held? key)) next keys value = ⟨y, fault⟩ :=
    hbelow
  rw [Value.assign, Value.assignBelow]
  cases hheld : v.held? key with
  | none =>
    rw [hheld] at hstart hbelow
    simp only [containerFor] at hstart hbelow
    simp only [hstart, hbelow, hput]
  | some found =>
    rw [hheld] at hstart hbelow
    cases found <;> simp only [containerFor] at hstart hbelow <;> simp only [hstart, hbelow, hput]

theorem assign_cons {keys : List Key} {value : Value} {next : Key}
    (h : ((containerFor next (v.held? key)).assign (next :: keys) value).toExcept = .ok w)
    (hplace : ∀ x, ∃ y, v.place key x = .ok y) :
    (v.assign (key :: next :: keys) value).toExcept = v.place key w := by
  obtain ⟨x, hx⟩ := hplace (containerFor next (v.held? key))
  obtain ⟨y, hy⟩ := hplace w
  rw [assign_cons_of_place hx (Outcome.toExcept_eq_ok_iff.mp h) hy, hy]
  rfl

theorem assign_singleton {value : Value} :
    (v.assign [key] value).toExcept = v.place key value := by
  rw [Value.assign, Value.assignBelow]
  cases v.place key value <;> rfl

theorem run_below_of_delete (v : Value) (key : Key) (hbucket : c.bucket = .delete)
    (h : c.runSlot (v.child? key) = .ok r) :
    r = none ∧ (v.child? key).isSome = true ∧ (c.below key).run v = v.removeKey key ∨
      ∃ w, r = some w ∧ (v.child? key).isSome = true ∧
        (c.below key).run v = .ok (v.replaceChild key w) := by
  obtain ⟨bucket, keys, value⟩ := c
  unfold Edit.runSlot at h
  rw [if_pos hbucket] at h
  rw [Edit.run, Edit.below, if_pos hbucket]
  cases hchild : v.child? key with
  | none => simp [hchild] at h
  | some x =>
    cases keys with
    | nil =>
      simp only [hchild, Except.ok.injEq] at h
      exact .inl ⟨h.symm, rfl, remove_singleton⟩
    | cons next keys =>
      simp only [hchild] at h
      obtain ⟨w, hw, rfl⟩ := exists_of_map_eq_ok h
      refine .inr ⟨w, rfl, rfl, ?_⟩
      rw [remove_cons hchild (List.cons_ne_nil _ _), hw]
      rfl

theorem run_below_of_write (v : Value) (key : Key) (hbucket : c.bucket ≠ .delete)
    (hslot : ∀ next, containerFor next slot = containerFor next (v.held? key))
    (hplace : ∀ x, ∃ y, v.place key x = .ok y) (h : c.runSlot slot = .ok r) :
    ∃ w, r = some w ∧ (c.below key).run v = v.place key w := by
  obtain ⟨bucket, keys, value⟩ := c
  unfold Edit.runSlot at h
  rw [if_neg hbucket] at h
  rw [Edit.run, Edit.below, if_neg hbucket]
  cases keys with
  | nil => exact ⟨value, (Except.ok.inj h).symm, assign_singleton⟩
  | cons next keys =>
    obtain ⟨w, hw, rfl⟩ := exists_of_map_eq_ok h
    rw [hslot next] at hw
    exact ⟨w, rfl, assign_cons hw hplace⟩

theorem exists_run_below_map {members : Members} {text : String} (hkeys : members.keys.Nodup)
    (h : c.runSlot (members.get? (.name text)) = .ok r) :
    ∃ others : Members, (c.below (.name text)).run (.map members) = .ok (.map others) ∧
      others.keys.Nodup ∧ others.get? (.name text) = r ∧
      ∀ key, key ≠ .name text → others.get? key = members.get? key := by
  by_cases hbucket : c.bucket = .delete
  · obtain ⟨rfl, -, hrun⟩ | ⟨w, rfl, -, hrun⟩ :=
      run_below_of_delete (.map members) (.name text) hbucket h
    · exact ⟨members.erase (.name text), hrun, Members.nodup_keys_erase hkeys _,
        Members.get?_erase_self hkeys, fun key hne => Members.get?_erase_of_ne hne⟩
    · exact ⟨members.insert (.name text) w, hrun, Members.nodup_keys_insert hkeys _ w,
        Members.get?_insert_self members _ w, fun key hne => Members.get?_insert_of_ne hne⟩
  · obtain ⟨w, rfl, hrun⟩ := run_below_of_write (.map members) (.name text) hbucket
      (fun next => rfl) (fun x => ⟨_, rfl⟩) h
    exact ⟨members.insert (.name text) w, hrun, Members.nodup_keys_insert hkeys _ w,
      Members.get?_insert_self members _ w, fun key hne => Members.get?_insert_of_ne hne⟩

theorem length_padSet (items : List Value) (i : Nat) (w : Value) :
    (Value.padSet items i w).length = max items.length (i + 1) := by
  rw [Value.padSet]
  split
  · rw [List.length_set]
    omega
  · simp only [List.length_append, List.length_replicate, List.length_singleton]
    omega

theorem getElem?_padSet_self (items : List Value) (i : Nat) (w : Value) :
    (Value.padSet items i w)[i]? = some w := by
  rw [Value.padSet]
  split
  · rename_i hi
    rw [List.getElem?_set_self hi]
  · have hlength : (items ++ List.replicate (i - items.length) Value.null).length = i := by
      simp only [List.length_append, List.length_replicate]
      omega
    rw [List.getElem?_append_right (by omega), hlength, Nat.sub_self]
    rfl

/-- A value can be put into a list at a position that the list has, or that fits into memory. -/
theorem place_index {items : List Value} {i : Nat}
    (h : i < items.length ∨ i + 1 < Value.memoryListLength) (x : Value) :
    (Value.list items).place (.index i) x = .ok (.list (Value.padSet items i x)) := by
  have hpos : 0 < Value.memoryListLength := by decide
  have hmax : Value.memoryListLength ≤ Value.maxListLength := by decide
  rw [Value.place, if_neg (by omega), if_neg (by omega)]

/-- A write into a list leaves the other positions as they are, or pads them with null. -/
theorem follows_padSet_of_ne {items : List Value} {i j : Nat} (hne : j ≠ i) (w : Value)
    (h : Follows items j slot) : Follows (Value.padSet items i w) j slot := by
  rw [Follows, Value.padSet]
  split
  · rwa [List.getElem?_set_ne hne.symm]
  · -- Beyond the end of the list there was nothing, and padding reads as nothing.
    by_cases hj : j < items.length
    · rwa [List.append_assoc, List.getElem?_append_left hj]
    · have hnone : items[j]? = none := List.getElem?_eq_none (by omega)
      have hslot : slot = none := by
        rcases h with h | h
        · exact h.symm.trans hnone
        · exact h.1
      rw [List.append_assoc, List.getElem?_append_right (by omega)]
      by_cases hpad : j < i
      · refine .inr ⟨hslot, ?_⟩
        rw [List.getElem?_append_left (by rw [List.length_replicate]; omega),
          List.getElem?_replicate, if_pos (by omega)]
      · refine .inl ?_
        rw [hslot]
        refine List.getElem?_eq_none ?_
        simp only [List.length_append, List.length_replicate, List.length_singleton]
        omega

/-- A deletion below an element of a list replaces the element, by null if it goes itself. -/
theorem exists_run_below_list_of_delete {items : List Value} {i : Nat}
    (hbucket : c.bucket = .delete) (h : c.runSlot items[i]? = .ok r) :
    ∃ w, i < items.length ∧
      (c.below (.index i)).run (.list items) = .ok (.list (items.set i w)) ∧
      (r = some w ∨ r = none ∧ w = .null) := by
  obtain ⟨rfl, hsome, hrun⟩ | ⟨w, rfl, hsome, hrun⟩ :=
    run_below_of_delete (.list items) (.index i) hbucket h
  · exact ⟨.null, by simpa [Value.child?] using hsome, hrun, .inr ⟨rfl, rfl⟩⟩
  · exact ⟨w, by simpa [Value.child?] using hsome, hrun, .inl rfl⟩

/-- A write below an element of a list pads the list up to the element. -/
theorem exists_run_below_list_of_write {items : List Value} {i : Nat}
    (hbucket : c.bucket ≠ .delete) (hfollows : Follows items i slot)
    (hmemory : i < items.length ∨ i + 1 < Value.memoryListLength) (h : c.runSlot slot = .ok r) :
    ∃ w, r = some w ∧
      (c.below (.index i)).run (.list items) = .ok (.list (Value.padSet items i w)) := by
  -- A write goes on in the same container whether it finds null or nothing.
  have hheld : ∀ next, containerFor next slot =
      containerFor next ((Value.list items).held? (.index i)) := by
    intro next
    rcases hfollows with hslot | ⟨rfl, hnull⟩
    · exact congrArg (containerFor next) hslot.symm
    · rw [Value.held?, hnull]
      rfl
  have hplace := place_index hmemory
  obtain ⟨w, hr, hrun⟩ := run_below_of_write _ _ hbucket hheld (fun x => ⟨_, hplace x⟩) h
  exact ⟨w, hr, hrun.trans (hplace w)⟩

theorem exists_run_below_list {items : List Value} {i : Nat} (hfollows : Follows items i slot)
    (hmemory : i < items.length ∨ i + 1 < Value.memoryListLength) (h : c.runSlot slot = .ok r) :
    ∃ others : List Value, (c.below (.index i)).run (.list items) = .ok (.list others) ∧
      Follows others i r ∧ items.length ≤ others.length ∧
      others.length ≤ max items.length (i + 1) ∧
      ∀ j s, j ≠ i → Follows items j s → Follows others j s := by
  by_cases hbucket : c.bucket = .delete
  · -- A deletion fails where there is nothing, so the list holds what the place holds.
    have hslot : items[i]? = slot := by
      rcases hfollows with hslot | ⟨rfl, -⟩
      · exact hslot
      · unfold Edit.runSlot at h
        simp [hbucket] at h
    rw [← hslot] at h
    obtain ⟨w, hi, hrun, hr⟩ := exists_run_below_list_of_delete hbucket h
    have hself : (items.set i w)[i]? = some w := List.getElem?_set_self hi
    refine ⟨items.set i w, hrun, ?_, ?_, ?_, fun j s hne hj => ?_⟩
    · rcases hr with rfl | ⟨rfl, rfl⟩
      · exact .inl hself
      · exact .inr ⟨rfl, hself⟩
    · exact Nat.le_of_eq List.length_set.symm
    · rw [List.length_set]
      exact Nat.le_max_left _ _
    · rwa [Follows, List.getElem?_set_ne hne.symm]
  · obtain ⟨w, rfl, hrun⟩ := exists_run_below_list_of_write hbucket hfollows hmemory h
    refine ⟨Value.padSet items i w, hrun, .inl (getElem?_padSet_self items i w), ?_, ?_,
      fun j s hne hj => follows_padSet_of_ne hne w hj⟩
    · rw [length_padSet]
      exact Nat.le_max_left _ _
    · exact Nat.le_of_eq (length_padSet items i w)

theorem isContainer_of_place {x : Value} (hv : v.isContainer = true) (h : v.place key x = .ok w) :
    w.isContainer = true := by
  cases v <;> cases key <;> simp only [Value.place, Value.isContainer, Bool.false_eq_true] at h hv
  case list.index items i =>
    split at h <;> [skip; split at h] <;> cases h
    rfl
  all_goals cases h
  all_goals rfl

theorem isContainer_of_removeAt {keys : List Key} (hv : v.isContainer = true)
    (h : v.removeAt keys key = .ok w) : w.isContainer = true := by
  cases keys with
  | nil =>
    rw [Value.removeAt] at h
    cases v <;> cases key <;>
      simp only [Value.removeKey, Value.isContainer, Bool.false_eq_true] at h hv <;> cases h <;> rfl
  | cons next keys =>
    rw [Value.removeAt] at h
    cases hchild : v.child? next with
    | none =>
      simp only [hchild, Except.ok.injEq] at h
      exact h ▸ hv
    | some x =>
      simp only [hchild] at h
      cases hx : x.removeAt keys key with
      | error error => rw [hx] at h; cases h
      | ok y =>
        rw [hx] at h
        cases h
        cases v <;> cases next <;> simp_all [Value.replaceChild, Value.isContainer]

theorem isContainer_of_run (hv : v.isContainer = true) (h : c.run v = .ok w) :
    w.isContainer = true := by
  rw [Edit.run] at h
  split at h
  · rw [Value.remove] at h
    cases hlast : c.keys.getLast? with
    | none => simp [hlast] at h
    | some key =>
      simp only [hlast] at h
      exact isContainer_of_removeAt hv h
  · cases hkeys : c.keys with
    | nil => simp [hkeys, Value.assign, Outcome.toExcept] at h
    | cons key keys =>
      rw [hkeys, Value.assign] at h
      cases keys with
      | nil =>
        have hplace : v.place key c.value = .ok w := assign_singleton.symm.trans h
        exact isContainer_of_place hv hplace
      | cons next keys =>
        rw [Value.assignBelow] at h
        simp only at h
        split at h
        · cases h
        · split at h
          · rename_i hplace
            rw [Outcome.toExcept_eq_ok_iff, Outcome.mk.injEq] at h
            exact h.1 ▸ isContainer_of_place hv hplace
          · cases h

end Steps

/-! ### Several edits -/

section Runs

variable {c : Edit} {edits : List Edit}

theorem runEdits_cons (c : Edit) (edits : List Edit) (v : Value) :
    runEdits (c :: edits) v = (c.run v).bind (runEdits edits) := rfl

theorem runSlotEdits_cons (c : Edit) (edits : List Edit) (slot : Option Value) :
    runSlotEdits (c :: edits) slot = (c.runSlot slot).bind (runSlotEdits edits) := rfl

theorem runSlotEdits_append (edits others : List Edit) (slot : Option Value) :
    runSlotEdits (edits ++ others) slot = (runSlotEdits edits slot).bind (runSlotEdits others) := by
  induction edits generalizing slot with
  | nil => rfl
  | cons c edits ih =>
    rw [List.cons_append, runSlotEdits_cons, runSlotEdits_cons]
    cases c.runSlot slot with
    | error error => rfl
    | ok s => exact ih s

/-- A run of edits below members does to each member what the edits below it do to its place. -/
theorem exists_runEdits_map {members : Members} {r : Key → Option Value}
    (hheads : ∀ c ∈ edits, ∃ text d, c = Edit.below (.name text) d) (hkeys : members.keys.Nodup)
    (h : ∀ key, runSlotEdits (editsBelow key edits) (members.get? key) = .ok (r key)) :
    ∃ others : Members, runEdits edits (.map members) = .ok (.map others) ∧ others.keys.Nodup ∧
      ∀ key, others.get? key = r key := by
  induction edits generalizing members with
  | nil => exact ⟨members, rfl, hkeys, fun key => Except.ok.inj (h key)⟩
  | cons c edits ih =>
    obtain ⟨text, d, rfl⟩ := hheads c List.mem_cons_self
    have hhead := h (.name text)
    rw [editsBelow_cons_self, runSlotEdits_cons] at hhead
    obtain ⟨s, hs, hrest⟩ := exists_of_bind_eq_ok hhead
    obtain ⟨others, hrun, hothers, hself, hne⟩ := exists_run_below_map hkeys hs
    -- The first edit is gone from the run below its key, and was never in that below another one.
    have hslots : ∀ key,
        runSlotEdits (editsBelow key edits) (others.get? key) = .ok (r key) := by
      intro key
      by_cases hkey : key = .name text
      · rw [hkey, hself, hrest]
      · rw [hne key hkey, ← h key, editsBelow_cons_of_ne fun heq => hkey heq.symm]
    obtain ⟨final, hfinal⟩ := ih (fun e he => hheads e (List.mem_cons_of_mem _ he)) hothers hslots
    refine ⟨final, ?_, hfinal.2⟩
    rw [runEdits_cons, hrun]
    exact hfinal.1

/-- A run of edits below elements does to each element what the edits below it do to its place,
    and lengthens the list no further than needed. -/
theorem exists_runEdits_list {items : List Value} {slots r : Nat → Option Value} {n : Nat}
    (hheads : ∀ c ∈ edits, ∃ i d, c = Edit.below (.index i) d ∧ i < n ∧
      (i < items.length ∨ i + 1 < Value.memoryListLength))
    (hlength : items.length ≤ n) (hslots : ∀ i, Follows items i (slots i))
    (h : ∀ i, runSlotEdits (editsBelow (.index i) edits) (slots i) = .ok (r i)) :
    ∃ others : List Value, runEdits edits (.list items) = .ok (.list others) ∧
      items.length ≤ others.length ∧ others.length ≤ n ∧ ∀ i, Follows others i (r i) := by
  induction edits generalizing items slots with
  | nil =>
    refine ⟨items, rfl, Nat.le_refl _, hlength, fun i => ?_⟩
    rw [← Except.ok.inj (h i)]
    exact hslots i
  | cons c edits ih =>
    obtain ⟨i, d, rfl, hi, hmemory⟩ := hheads c List.mem_cons_self
    have hhead := h i
    rw [editsBelow_cons_self, runSlotEdits_cons] at hhead
    obtain ⟨s, hs, hrest⟩ := exists_of_bind_eq_ok hhead
    obtain ⟨others, hrun, hself, hlonger, hshorter, hne⟩ :=
      exists_run_below_list (hslots i) hmemory hs
    -- After the first edit, the place of its element has moved on and the others have not.
    have hnext : ∀ j, Follows others j (if j = i then s else slots j) := by
      intro j
      by_cases hj : j = i
      · rw [if_pos hj, hj]
        exact hself
      · rw [if_neg hj]
        exact hne j _ hj (hslots j)
    have hruns : ∀ j, runSlotEdits (editsBelow (.index j) edits)
        (if j = i then s else slots j) = .ok (r j) := by
      intro j
      by_cases hj : j = i
      · rw [if_pos hj, hj, hrest]
      · rw [if_neg hj, ← h j, editsBelow_cons_of_ne fun heq => hj (Key.index.inj heq).symm]
    obtain ⟨final, hfinal, hfinalLonger, hrest⟩ := ih (fun e he => by
      obtain ⟨j, e, rfl, hj, hmemory⟩ := hheads e (List.mem_cons_of_mem _ he)
      exact ⟨j, e, rfl, hj, by omega⟩) (by omega) hnext hruns
    refine ⟨final, ?_, by omega, hrest⟩
    rw [runEdits_cons, hrun]
    exact hfinal

/-- On a container, a run of edits below keys is a run on the place that holds it. -/
theorem runSlotEdits_some {v : Value} (hv : v.isContainer = true) (h : ∀ c ∈ edits, c.keys ≠ []) :
    runSlotEdits edits (some v) = (runEdits edits v).map some := by
  induction edits generalizing v with
  | nil => rfl
  | cons c edits ih =>
    have hcontainer : ∀ key, containerFor key (some v) = v := by
      intro key
      cases v <;> simp_all [Value.isContainer, containerFor]
    have hstep : c.runSlot (some v) = (c.run v).map some := by
      obtain ⟨key, keys, hkeys⟩ := List.exists_cons_of_ne_nil (h c List.mem_cons_self)
      unfold Edit.runSlot
      rw [Edit.run, hkeys]
      split
      · rfl
      · simp only [hcontainer]
    rw [runSlotEdits_cons, runEdits_cons, hstep]
    cases hw : c.run v with
    | error error => rfl
    | ok w => exact ih (isContainer_of_run hv hw) fun e he => h e (List.mem_cons_of_mem _ he)

end Runs

end ItemDelta
