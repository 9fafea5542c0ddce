import ItemDelta.Proofs.Alias.Issue

/-!
# Registrations that succeed

A registration fails for a name that is too long, under a prefix that cannot be noted, or at a
number that is too long to be written, and for nothing else. What a value holds is never looked at,
and a free placeholder is found unless the numbers end before. It draws few numbers: those that cut
a name, and one for each placeholder in its way. So as many registrations as are known beforehand
can be afforded by a context that has enough numbers left, and the counter stays small for as many
of them as a path in memory can need.

## Main definitions

* `Key.fitsStore` — the keys whose names are not too long.
* `refusal?` — the fault that a row of names leads to.
* `Value.IsLead` — the prefixes that names can be noted under.
* `numbersFor` — how many numbers so many registrations draw at most.
* `AliasState.IsWithin` — what so many registrations can have drawn.
* `AliasState.Affords` — so many registrations more can be made.
* `AliasState.Sustains` — what registrations keep to, and where they give up.

## Main results

* `AliasState.sustains_isLed` — a registration gives up at a number that cannot be written.
* `AliasState.sustains_affords` — while registrations are left, none of them gives up.
* `settles_aliasPath`, `settles_aliasNode` — a path is refused for its first name that is too long.
* `AliasState.Affords.lt_counterLimit` — the counter leaves room for suffixes.
-/

namespace ItemDelta

/-- Whether the store takes a key: a name has at most `maxNameLength` characters. -/
def Key.fitsStore : Key → Bool
  | .name text => decide (text.length ≤ maxNameLength)
  | .index _ => true

/-- The fault that a row of names leads to: the first one that is too long is refused. -/
def refusal? (names : List String) : Option Error :=
  (names.find? fun name => maxNameLength < name.length).map fun name =>
    .nameTooLong name (integerText maxNameLength)

theorem refusal?_append (names others : List String) :
    refusal? (names ++ others) = (refusal? names).or (refusal? others) := by
  rw [refusal?, List.find?_append, Option.map_or]
  rfl

theorem refusal?_flatMap {α : Type} (names : α → List String) (xs : List α) :
    refusal? (xs.flatMap names) = xs.findSome? fun x => refusal? (names x) := by
  rw [refusal?, List.find?_flatMap, List.map_findSome?]
  rfl

theorem refusal?_eq_none {keys : List Key} (h : ∀ key ∈ keys, key.fitsStore = true) :
    refusal? (namesOf keys) = none := by
  rw [refusal?, Option.map_eq_none_iff, List.find?_eq_none]
  intro name hname
  have hfits := h _ (mem_of_mem_namesOf hname)
  rw [decide_eq_true_eq, Nat.not_lt]
  exact of_decide_eq_true hfits

theorem Registry.length_insert_le {α : Type} (registry : Registry α) (placeholder : String)
    (meaning : α) : (registry.insert placeholder meaning).length ≤ registry.length + 1 := by
  induction registry with
  | nil => exact Nat.le_refl 1
  | cons entry rest ih =>
    obtain ⟨p, m⟩ := entry
    rw [insert]
    split
    · exact Nat.le_succ _
    · exact Nat.succ_le_succ ih

/-- A prefix that names can be noted under, as they can under every text. -/
structure Value.IsLead (lead : Value) : Prop where
  ne_null : lead ≠ .null
  checked : checkLead lead = .ok ()

theorem isLead_text (text : String) : (Value.text text).IsLead := ⟨nofun, rfl⟩

/-- A prefix that can be noted can be written. -/
theorem writtenPart_eq_ok {lead : Value} (h : checkLead lead = .ok ()) :
    lead.writtenPart = .ok lead.part := by
  rw [checkLead] at h
  split at h
  · cases h
  · split at h
    · cases h
    · rename_i hlong
      rw [Value.writtenPart, if_neg hlong]

/-! ### The prefix of a context -/

/-- A context under a given prefix. -/
def AliasState.IsLed (lead : Value) (state : AliasState) : Prop := state.context.lead = lead

theorem AliasState.IsLed.effectiveLead {context : AliasContext} {state : AliasState}
    (h : state.IsLed context.lead) (lead : Value) :
    effectiveLead lead state.context = ItemDelta.effectiveLead lead context := by
  rw [ItemDelta.effectiveLead, ItemDelta.effectiveLead, h]

theorem leadOr_of_ne_null {lead : Value} (hne : lead ≠ .null) (other : Value) :
    leadOr lead other = lead :=
  if_neg hne

/-- A prefix that is asked for is the one that is used. -/
theorem Value.IsLead.checkLead_effectiveLead {lead : Value} (h : lead.IsLead)
    (context : AliasContext) : checkLead (effectiveLead lead context) = .ok () := by
  rw [effectiveLead, leadOr_of_ne_null h.ne_null]
  exact h.checked

/-! ### Numbers drawn -/

/-- How many numbers so many registrations draw at most, from empty registries on: each a few for
    every entry that the others have made. -/
def numbersFor (count : Nat) : Nat := count * (10 * count + 11)

theorem numbersFor_mono {count more : Nat} (h : count ≤ more) :
    numbersFor count ≤ numbersFor more :=
  Nat.mul_le_mul h (by omega)

/-- One registration more draws no more numbers than there is room for. -/
theorem numbersFor_add_le {count entries : Nat} (h : entries ≤ count) :
    numbersFor count + (1 + drawLimit entries) ≤ numbersFor (count + 1) := by
  have hdrawn : 1 + drawLimit entries ≤ 10 * count + 11 := by
    rw [drawLimit]
    omega
  have hsum : count * (10 * count + 11) + (10 * count + 11) ≤
      (count + 1) * (10 * (count + 1) + 11) := by
    rw [← Nat.succ_mul]
    exact Nat.mul_le_mul_left _ (by omega)
  rw [numbersFor, numbersFor]
  omega

namespace AliasState

/-- How many entries there are. -/
def entries (state : AliasState) : Nat :=
  state.names.length + state.taken.length + state.values.length

/-- At most so many registrations have been made since the counter stood at its first number: no
    more entries are there, and no more numbers are drawn than they can have drawn. -/
structure IsWithin (first : Int) (count : Nat) (state : AliasState) : Prop where
  entries : state.entries ≤ count
  first_le : first ≤ state.context.counter
  le_last : state.context.counter ≤ first + numbersFor count

theorem isWithin_start (context : AliasContext) :
    (start context).IsWithin context.counter 0 :=
  ⟨Nat.le_refl 0, Int.le_refl _, by simp [start, numbersFor]⟩

/-- What a run of registrations is to keep to: the prefix of the context, the number that its
    counter stands at first, and how many registrations are to be made. -/
structure Budget where
  lead : Value
  first : Int
  total : Nat

/-- Of the registrations that are to be made, so many are left, and all numbers that they can need
    can be written. -/
structure Affords (budget : Budget) (left : Nat) (state : AliasState) : Prop where
  lead : state.IsLed budget.lead
  within : ∃ count, count + left ≤ budget.total ∧ state.IsWithin budget.first count
  written : ∀ k ≤ numbersFor budget.total, isLongInteger (budget.first + (k : Nat)) = false

/-- A context without entries affords as many registrations as it has numbers for. -/
theorem affords_start {context : AliasContext} {total : Nat}
    (h : ∀ k ≤ numbersFor total, isLongInteger (context.counter + (k : Nat)) = false) :
    (start context).Affords ⟨context.lead, context.counter, total⟩ total :=
  ⟨rfl, ⟨0, by simp, isWithin_start context⟩, h⟩

variable {state next : AliasState} {budget : Budget} {left less drawn : Nat}

theorem Affords.mono (h : state.Affords budget left) (hle : less ≤ left) :
    state.Affords budget less := by
  obtain ⟨hlead, ⟨count, hcount, hwithin⟩, hwritten⟩ := h
  exact ⟨hlead, ⟨count, by omega, hwithin⟩, hwritten⟩

/-- The numbers that one registration more can need can be written. -/
theorem Affords.isLongInteger_eq_false (h : state.Affords budget (left + 1)) {entries : Nat}
    (hentries : entries ≤ state.entries) (hdrawn : drawn ≤ 1 + drawLimit entries) :
    isLongInteger (state.context.counter + drawn) = false := by
  obtain ⟨-, ⟨count, hcount, hwithin⟩, hwritten⟩ := h
  obtain ⟨hbound, hfirst, hlast⟩ := hwithin
  have hroom := numbersFor_add_le (Nat.le_trans hentries hbound)
  have htotal := numbersFor_mono (by omega : count + 1 ≤ budget.total)
  have hnumber : state.context.counter + drawn =
      budget.first + ((state.context.counter + drawn - budget.first).toNat : Nat) := by omega
  rw [hnumber]
  exact hwritten _ (by omega)

/-- One registration more, and the numbers that it has drawn. -/
theorem Affords.step (h : state.Affords budget (left + 1)) {entries : Nat}
    (hentries : entries ≤ state.entries) (hdrawn : drawn ≤ 1 + drawLimit entries)
    (hlead : next.context.lead = state.context.lead)
    (hcounter : next.context.counter = state.context.counter + drawn)
    (hnext : next.entries ≤ state.entries + 1) : next.Affords budget left := by
  obtain ⟨hled, ⟨count, hcount, hwithin⟩, hwritten⟩ := h
  obtain ⟨hbound, hfirst, hlast⟩ := hwithin
  have hroom := numbersFor_add_le (Nat.le_trans hentries hbound)
  refine ⟨hlead.trans hled, ⟨count + 1, by omega, ?_, ?_, ?_⟩, hwritten⟩
  · omega
  · omega
  · omega

end AliasState

/-! ### What registrations keep to -/

namespace AliasState

/-- A way to tell that a state affords so many registrations more, under the prefix of its context.
    Each registration succeeds and leaves one less, unless it gives up. -/
structure Sustains (own : Value) (affords : Nat → AliasState → Prop)
    (givesUp : Error → AliasState → Prop) : Prop where
  led : ∀ {left s}, affords left s → s.IsLed own
  mono : ∀ {left less s}, less ≤ left → affords left s → affords less s
  name : ∀ {left s} (lead : Value) (name : String), affords (left + 1) s →
    Settles givesUp (registerName lead name) s none (affords left)
  value : ∀ {left s} (parts : List (Option String)) (value : Value), affords (left + 1) s →
    Settles givesUp (registerValue parts value) s none (affords left)

/-- A fault at a number that is too long to be written. -/
def RunsOut (fault : Error) (state : AliasState) : Prop :=
  fault = .tooManyDigits none ∧ isLongInteger state.context.counter = true

/-- However many registrations are made, one gives up only where it runs out of numbers. -/
theorem sustains_isLed (own : Value) : Sustains own (fun _ s => s.IsLed own) RunsOut where
  led hs := hs
  mono _ hs := hs
  name {_ s} lead name hs := by
    generalize hrun : registerName lead name s = outcome
    cases nameOutcome_of_eq hrun with
    | kept | issued => exact .of_ok hrun hs
    | refused _ hlong => exact .of_error hrun (.inr ⟨rfl, hlong⟩)
  value {_ s} parts value hs := by
    generalize hrun : registerValue parts value s = outcome
    cases valueOutcome_of_eq hrun with
    | issued => exact .of_ok hrun hs
    | refused _ hlong => exact .of_error hrun (.inr ⟨rfl, hlong⟩)

/-- While registrations are left that can be afforded, none of them gives up. -/
theorem sustains_affords (budget : Budget) :
    Sustains budget.lead (Affords budget) fun _ _ => False where
  led hs := hs.lead
  mono hle hs := hs.mono hle
  name {left s} lead name hs := by
    have hnames : s.names.length + s.taken.length ≤ s.entries := Nat.le_add_right _ _
    -- Whatever becomes of the context, one entry is made at most.
    have hinsert : ∀ (context : AliasContext) placeholder,
        entries { s with context, names := s.names.insert placeholder name } ≤ s.entries + 1 := by
      intro context placeholder
      have hlength := s.names.length_insert_le placeholder name
      rw [entries, entries]
      dsimp only
      omega
    generalize hrun : registerName lead name s = outcome
    cases nameOutcome_of_eq hrun with
    | kept =>
      refine .of_ok hrun (hs.step hnames (Nat.zero_le _) rfl ?_ (hinsert _ _))
      rw [Int.natCast_zero, Int.add_zero]
    | issued _ hdrawn => exact .of_ok hrun (hs.step hnames hdrawn rfl rfl (hinsert _ _))
    | refused hdrawn hlong => cases (hs.isLongInteger_eq_false hnames hdrawn).symm.trans hlong
  value {left s} parts value hs := by
    have hvalues : s.values.length ≤ s.entries := Nat.le_add_left _ _
    generalize hrun : registerValue parts value s = outcome
    cases valueOutcome_of_eq hrun with
    | @issued placeholder drawn hdrawn _ _ =>
      refine .of_ok hrun (hs.step hvalues hdrawn rfl rfl ?_)
      have hlength := s.values.length_insert_le placeholder value
      rw [entries, entries]
      dsimp only
      omega
    | refused hdrawn hlong => cases (hs.isLongInteger_eq_false hvalues hdrawn).symm.trans hlong

end AliasState

/-! ### Numbers for what is in memory -/

namespace AliasState

variable {state : AliasState} {budget : Budget} {left : Nat}

/-- What can be drawn for paths that are in memory leaves room for suffixes. -/
theorem numbersFor_lt_counterLimit {total : Nat} (h : total ≤ Nat.pow 2 65) :
    numbersFor total + 1 < counterLimit := by
  have hlimit : numbersFor (Nat.pow 2 65) + 1 < counterLimit := by decide
  have hmono := numbersFor_mono h
  omega

/-- It can be written as well. -/
theorem written_of_le {total : Nat} (h : total ≤ Nat.pow 2 65) :
    ∀ k ≤ numbersFor total, isLongInteger (1 + (k : Nat)) = false := by
  intro k hk
  have hlimit := numbersFor_lt_counterLimit h
  have hlt : 1 + (k : Int) < counterLimit := by omega
  exact isLongInteger_of_lt (by omega) (by decide : 250 ≤ integerDigitLimit)
    ((Int.toNat_lt (by omega)).mpr hlt)

theorem Affords.lt_counterLimit (h : state.Affords budget left) (hfirst : budget.first = 1)
    (htotal : budget.total ≤ Nat.pow 2 65) : state.context.counter < counterLimit := by
  obtain ⟨-, ⟨count, hcount, hwithin⟩, -⟩ := h
  have hlast := hwithin.le_last
  have hmono := numbersFor_mono (by omega : count ≤ budget.total)
  have hlimit := numbersFor_lt_counterLimit htotal
  omega

end AliasState

/-! ### Aliased paths -/

section Paths

variable {own lead : Value} {affords : Nat → AliasState → Prop}
  {givesUp : Error → AliasState → Prop} {s : AliasState} {left : Nat}

/-- A name is refused just if it is too long. -/
theorem settles_nameAlias (hsustains : AliasState.Sustains own affords givesUp)
    (hlead : checkLead lead = .ok ()) (name : String) (hs : affords (left + 1) s) :
    Settles givesUp (nameAlias lead name) s (refusal? [name]) (affords left) := by
  by_cases hlong : maxNameLength < name.length
  · have hcheck : checkLength name = .error (.nameTooLong name (integerText maxNameLength)) :=
      if_pos hlong
    have hrun : nameAlias lead name s =
        .error (.nameTooLong name (integerText maxNameLength)) s := by
      rw [nameAlias, ofExcept_bind_of_error hcheck]
    exact .of_error hrun (.inl (by simp [refusal?, hlong]))
  · have hcheck : checkLength name = .ok () := if_neg hlong
    have hrefusal : refusal? [name] = none := by simp [refusal?, hlong]
    rw [hrefusal]
    exact .ofExcept hcheck (.ofExcept hlead (hsustains.name lead name hs))

theorem settles_aliasSegments (hsustains : AliasState.Sustains own affords givesUp)
    (hlead : checkLead lead = .ok ()) (segments : List Segment) (parts : List String)
    (hs : affords (segments.length + left) s) :
    Settles givesUp (aliasSegments lead parts segments) s
      (refusal? (namesOf (segments.map Segment.key))) (affords left) := by
  induction segments generalizing s parts with
  | nil =>
    rw [List.length_nil, Nat.zero_add] at hs
    exact .pure parts hs
  | cons segment segments ih =>
    rw [List.length_cons, Nat.add_right_comm] at hs
    rw [aliasSegments, List.map_cons]
    cases segment.key with
    | index position => exact ih _ (hsustains.mono (Nat.le_succ _) hs)
    | name name =>
      have hnames : namesOf (.name name :: segments.map Segment.key) =
          [name] ++ namesOf (segments.map Segment.key) := rfl
      rw [hnames, refusal?_append]
      exact (settles_nameAlias hsustains hlead name hs).bind fun placeholder t ht => ih _ ht

theorem exists_segments_of_pathKeys {path : String} {keys : List Key}
    (hpath : pathKeys path = .ok keys) :
    ∃ segments, parsePath path = .ok segments ∧ segments.map Segment.key = keys := by
  rw [pathKeys] at hpath
  cases hsegments : parsePath path with
  | error fault =>
    rw [hsegments] at hpath
    cases hpath
  | ok segments =>
    rw [hsegments] at hpath
    exact ⟨segments, rfl, Except.ok.inj hpath⟩

variable {context : AliasContext} {keys : List Key}

/-- A path is refused for its first name that is too long. -/
theorem settles_aliasPath (hsustains : AliasState.Sustains context.lead affords givesUp)
    (hlead : checkLead (effectiveLead lead context) = .ok ()) {path : String}
    (hpath : pathKeys path = .ok keys) (hs : affords (keys.length + left) s) :
    Settles givesUp (aliasPath lead path) s (refusal? (namesOf keys)) (affords left) := by
  obtain ⟨segments, hsegments, rfl⟩ := exists_segments_of_pathKeys hpath
  rw [List.length_map] at hs
  refine .get (.ofExcept hsegments ?_)
  rw [(hsustains.led hs).effectiveLead]
  exact (settles_aliasSegments hsustains hlead segments [] hs).bind_none
    fun parts t ht => .pure _ ht

/-- So is a path with a value at its end, whatever the value is. -/
theorem settles_aliasNode (hsustains : AliasState.Sustains context.lead affords givesUp)
    (hlead : checkLead (effectiveLead lead context) = .ok ()) {node : Node}
    (hpath : pathKeys node.path = .ok keys) (hs : affords (keys.length + 1 + left) s) :
    Settles givesUp (aliasNode lead node) s (refusal? (namesOf keys)) (affords left) := by
  obtain ⟨segments, hsegments, rfl⟩ := exists_segments_of_pathKeys hpath
  rw [List.length_map, Nat.add_assoc, Nat.add_comm 1] at hs
  refine .get (.ofExcept hsegments ?_)
  rw [(hsustains.led hs).effectiveLead]
  refine (settles_aliasSegments hsustains hlead segments [] hs).bind_none fun parts t ht => ?_
  refine .ofExcept (writtenPart_eq_ok hlead) ?_
  exact (hsustains.value _ node.value ht).bind_none fun placeholder u hu => .pure _ hu

end Paths

end ItemDelta
