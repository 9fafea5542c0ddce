import ItemDelta.Alias.Registration
import ItemDelta.Proofs.Alias.Drawing
import ItemDelta.Proofs.Alias.Suffix

/-!
# The search for a free placeholder

The search draws one number after the other until a candidate is free. Nothing in it bounds the
draws, and the candidates need not differ: once a base has to be cut to make room for a number,
numbers of different lengths can make one text. What ends the search is that the texts of numbers
in a row keep one length for long enough, so that more candidates differ than can be taken. Only
where it comes to a number that is too long to be written, it ends without a placeholder.

## Main definitions

* `Search` — the search as it goes on, step by step and without a bound.
* `HasDrawn` — what a search has come to after some draws.
* `Search.StopsAt` — what a search has come to where it stops.
* `Search.Ending` — how a search ends.

## Main results

* `Search.stopsAt` — what has been tried when a search ends.
* `search_firstFree` — a bounded search that can come to something free is a search.
* `Search.draws_le` — where nothing has to be cut, no more numbers are drawn than entries are there.
* `draws_freeCandidate` — the placeholder that is found is free.
* `AliasState.search_ends` — every search ends, among names as among values.
-/

namespace ItemDelta

/-- From a candidate, a search ends after so many draws. A free candidate is taken as it is; behind
    a taken one the search goes on with the next number at the end of the base, if that number can
    be written. -/
inductive Search (isFree : String → Bool) (base : String) : (candidate : String) →
    AliasContext → (draws : Nat) → EStateM.Result Error AliasContext String → Prop
  | found {candidate : String} {context : AliasContext} : isFree candidate = true →
      Search isFree base candidate context 0 (.ok candidate context)
  | refused {candidate : String} {context next : AliasContext} {fault : Error} :
      isFree candidate = false → context.nextSuffix = .error fault next →
      Search isFree base candidate context 0 (.error fault next)
  | draw {candidate suffix : String} {context next : AliasContext} {draws : Nat}
      {outcome : EStateM.Result Error AliasContext String} :
      isFree candidate = false → context.nextSuffix = .ok suffix next →
      Search isFree base (withSuffix base maxNameLength suffix) next draws outcome →
      Search isFree base candidate context (draws + 1) outcome

/-! ### Texts of numbers in a row -/

theorem length_decimalDigits_mono {m n : Nat} (h : m ≤ n) :
    (decimalDigits m).length ≤ (decimalDigits n).length := by
  apply (Nat.length_toDigits_le_iff (by decide) Nat.length_toDigits_pos).mpr
  exact Nat.lt_of_le_of_lt h ((Nat.length_toDigits_le_iff (by decide)
    Nat.length_toDigits_pos).mp (Nat.le_refl _))

theorem length_integerText_mono {m n : Int} (hm : 0 ≤ m) (h : m ≤ n) :
    (integerText m).length ≤ (integerText n).length := by
  rw [length_integerText, length_integerText, integerDigits_of_nonneg hm,
    integerDigits_of_nonneg (by omega)]
  apply length_decimalDigits_mono
  omega

theorem integerText_ne_empty (n : Int) : integerText n ≠ "" := by
  intro h
  have hdigits : integerDigits n = [] := String.ofList_injective h
  cases n with
  | ofNat k => exact List.ne_nil_of_length_pos Nat.length_toDigits_pos hdigits
  | negSucc k => cases hdigits

/-- A natural number below so small a power of ten can be written. -/
theorem isLongInteger_of_lt {n : Int} {digits : Nat} (hpos : 0 ≤ n)
    (hdigits : digits ≤ integerDigitLimit) (hlt : n.toNat < Nat.pow 10 digits) :
    isLongInteger n = false := by
  have hbelow : ∀ limit, digits ≤ limit → n.toNat < Nat.pow 10 limit := fun limit hle =>
    Nat.lt_of_lt_of_le hlt (Nat.pow_le_pow_right (by decide) hle)
  have hnat : n.natAbs = n.toNat := by omega
  rw [isLongInteger, decide_eq_false_iff_not, Nat.not_le, hnat]
  unfold firstLongInteger
  exact hbelow integerDigitLimit hdigits

/-- A number whose text is no longer than a name can be written. -/
theorem isLongInteger_of_length_le {n : Int} (hpos : 0 ≤ n)
    (h : (integerText n).length ≤ maxNameLength) : isLongInteger n = false := by
  rw [length_integerText, integerDigits_of_nonneg hpos] at h
  exact isLongInteger_of_lt hpos (by decide)
    ((Nat.length_toDigits_le_iff (by decide) (by decide)).mp h)

/-- A base that leaves room for a number is not cut. -/
theorem suffixed_of_le {base : String} {number : Int}
    (h : base.length + (integerText number).length ≤ maxNameLength) :
    suffixed base number = base ++ integerText number := by
  apply String.toList_injective
  have hroom : (0 : Int) ≤ (maxNameLength : Int) - (integerText number).length := by omega
  rw [suffixed, toList_withSuffix, String.toList_append, firstCharacters, if_pos hroom,
    List.take_of_length_le]
  rw [String.length_toList]
  omega

/-- Where no base is cut, the candidates all differ. -/
theorem candidate_inj {base : String} {counter : Int} {bound i j : Nat} (hcounter : 0 ≤ counter)
    (hroom : base.length + (integerText (counter + bound)).length ≤ maxNameLength)
    (hi : i ≤ bound) (hj : j ≤ bound) (h : candidate base counter i = candidate base counter j) :
    i = j := by
  have hnumbered : ∀ k, k + 1 ≤ bound →
      candidate base counter (k + 1) = base ++ integerText (counter + k) := by
    intro k hk
    apply suffixed_of_le
    have hmono := length_integerText_mono (n := counter + bound)
      (by omega : 0 ≤ counter + (k : Int)) (by omega)
    omega
  have hne : ∀ number, base ≠ base ++ integerText number := by
    intro number hbase
    have hlist := congrArg String.toList hbase
    rw [String.toList_append, List.self_eq_append_right, String.toList_eq_nil_iff] at hlist
    exact integerText_ne_empty number hlist
  cases i with
  | zero =>
    cases j with
    | zero => rfl
    | succ l => exact absurd (h.trans (hnumbered l hj)) (hne _)
  | succ k =>
    cases j with
    | zero => exact absurd (h.symm.trans (hnumbered k hi)) (hne _)
    | succ l =>
      rw [hnumbered k hi, hnumbered l hj] at h
      have hlist := congrArg String.toList h
      rw [String.toList_append, String.toList_append] at hlist
      have hnumber := integerText_inj (String.toList_injective (List.append_cancel_left hlist))
      omega

/-! ### Searches -/

/-- After so many draws from a counter, a search for a placeholder has come to a candidate. -/
structure HasDrawn (base : String) (counter : Int) (drawn : Nat) (text : String)
    (context : AliasContext) : Prop where
  text_eq : text = candidate base counter drawn
  counter_eq : context.counter = counter + drawn

namespace HasDrawn

variable {base text : String} {counter : Int} {drawn : Nat} {context : AliasContext}

theorem start (base : String) (context : AliasContext) :
    HasDrawn base context.counter 0 base context where
  text_eq := rfl
  counter_eq := (Int.add_zero context.counter).symm

/-- One number more. -/
theorem next (h : HasDrawn base counter drawn text context) :
    HasDrawn base counter (drawn + 1) (withSuffix base maxNameLength (integerText context.counter))
      (context.advance 1) where
  text_eq := by rw [candidate, h.counter_eq, suffixed]
  counter_eq := by
    rw [AliasContext.counter_advance, h.counter_eq]
    omega

end HasDrawn

namespace Search

variable {isFree : String → Bool} {base text : String} {context : AliasContext}
  {draws more : Nat} {outcome other : EStateM.Result Error AliasContext String}

/-- A search is determined by its start. -/
theorem unique (h : Search isFree base text context draws outcome)
    (h' : Search isFree base text context more other) : draws = more ∧ outcome = other := by
  induction h generalizing more with
  | found hfree =>
    cases h' with
    | found _ => exact ⟨rfl, rfl⟩
    | refused htaken _ => cases hfree.symm.trans htaken
    | draw htaken _ _ => cases hfree.symm.trans htaken
  | refused htaken hlong =>
    cases h' with
    | found hfree => cases hfree.symm.trans htaken
    | refused _ hlong' =>
      cases hlong.symm.trans hlong'
      exact ⟨rfl, rfl⟩
    | draw _ hnext _ => cases hlong.symm.trans hnext
  | draw htaken hnext _ ih =>
    cases h' with
    | found hfree => cases hfree.symm.trans htaken
    | refused _ hlong => cases hlong.symm.trans hnext
    | draw _ hnext' hrest =>
      cases hnext.symm.trans hnext'
      obtain ⟨hdraws, houtcome⟩ := ih hrest
      exact ⟨congrArg (· + 1) hdraws, houtcome⟩

theorem eq_of_isFree (h : Search isFree base text context draws outcome)
    (hfree : isFree text = true) : draws = 0 ∧ outcome = .ok text context :=
  h.unique (.found hfree)

/-- Where a search stops: the candidate that is tried last is free, or it is taken and the number
    that is next is too long to be written. -/
def StopsAt (isFree : String → Bool) (last : String) (final : AliasContext)
    (outcome : EStateM.Result Error AliasContext String) : Prop :=
  outcome = .ok last final ∧ isFree last = true ∨
    outcome = .error (.tooManyDigits none) final ∧ isFree last = false ∧
      isLongInteger final.counter = true

/-- A search that goes on after some draws. -/
theorem stopsAt_of_hasDrawn (h : Search isFree base text context draws outcome) {counter : Int}
    {before : Nat} (hdrawn : HasDrawn base counter before text context) :
    StopsAt isFree (candidate base counter (before + draws)) (context.advance draws) outcome ∧
      ∀ i, before ≤ i → i < before + draws → isFree (candidate base counter i) = false := by
  induction h generalizing before with
  | found hfree =>
    rw [hdrawn.text_eq] at hfree ⊢
    rw [AliasContext.advance_zero]
    exact ⟨.inl ⟨rfl, hfree⟩, fun i hle hlt => by omega⟩
  | @refused text here next fault htaken hlong =>
    rw [hdrawn.text_eq] at htaken
    rw [AliasContext.advance_zero]
    cases hwritten : isLongInteger here.counter with
    | false => cases hlong.symm.trans (AliasContext.nextSuffix_of_short hwritten)
    | true =>
      cases hlong.symm.trans (AliasContext.nextSuffix_of_long hwritten)
      exact ⟨.inr ⟨rfl, htaken, hwritten⟩, fun i hle hlt => by omega⟩
  | @draw text suffix here next draws outcome htaken hnext _ ih =>
    rw [hdrawn.text_eq] at htaken
    cases hwritten : isLongInteger here.counter with
    | true => cases hnext.symm.trans (AliasContext.nextSuffix_of_long hwritten)
    | false =>
      cases hnext.symm.trans (AliasContext.nextSuffix_of_short hwritten)
      obtain ⟨hstops, hbefore⟩ := ih hdrawn.next
      have hsum : before + 1 + draws = before + (draws + 1) := by omega
      rw [AliasContext.advance_advance, Nat.add_comm 1 draws, hsum] at hstops
      rw [hsum] at hbefore
      refine ⟨hstops, fun i hle hlt => ?_⟩
      rcases Nat.eq_or_lt_of_le hle with rfl | hlater
      · exact htaken
      · exact hbefore i hlater hlt

/-- All candidates before the one at which a search stops are taken. -/
theorem stopsAt (h : Search isFree base base context draws outcome) :
    StopsAt isFree (candidate base context.counter draws) (context.advance draws) outcome ∧
      ∀ i < draws, isFree (candidate base context.counter i) = false := by
  obtain ⟨hstops, hbefore⟩ := h.stopsAt_of_hasDrawn (.start base context)
  rw [Nat.zero_add] at hstops hbefore
  exact ⟨hstops, fun i => hbefore i (Nat.zero_le i)⟩

/-- A search stops at a free candidate at the latest. It fails only before that, at a number that is
    too long to be written. -/
theorem draws_le_of_isFree (h : Search isFree base base context draws outcome) {i : Nat}
    (hfree : isFree (candidate base context.counter i) = true) :
    draws ≤ i ∧ ((∀ k < i, isLongInteger (context.counter + (k : Nat)) = false) →
      ∃ placeholder, outcome = .ok placeholder (context.advance draws)) := by
  obtain ⟨hstops, hbefore⟩ := h.stopsAt
  have hle : draws ≤ i := by
    by_contra hlt
    cases (hbefore i (by omega)).symm.trans hfree
  refine ⟨hle, fun hwritten => ?_⟩
  rcases hstops with ⟨houtcome, -⟩ | ⟨-, htaken, hlong⟩
  · exact ⟨_, houtcome⟩
  · have hne : draws ≠ i := by
      rintro rfl
      cases htaken.symm.trans hfree
    cases (hwritten draws (by omega)).symm.trans hlong

/-- Where nothing has to be cut, no more numbers are drawn than placeholders are taken, and all of
    them can be written. -/
theorem draws_le {taken : List String} (htaken : ∀ text, isFree text = false → text ∈ taken)
    (hcounter : 0 ≤ context.counter)
    (hroom : base.length + (integerText (context.counter + taken.length)).length ≤ maxNameLength)
    (h : Search isFree base base context draws outcome) :
    draws ≤ taken.length ∧ ∃ placeholder, outcome = .ok placeholder (context.advance draws) := by
  have hinj : ∀ i ≤ taken.length, ∀ j ≤ taken.length,
      candidate base context.counter i = candidate base context.counter j → i = j :=
    fun i hi j hj => candidate_inj hcounter hroom hi hj
  obtain ⟨i, hi, hfree⟩ := exists_isFree_of_inj htaken _ hinj
  obtain ⟨hle, hreturns⟩ := h.draws_le_of_isFree hfree
  refine ⟨by omega, hreturns fun k hk => ?_⟩
  have hmono := length_integerText_mono (n := context.counter + taken.length)
    (by omega : 0 ≤ context.counter + (k : Int)) (by omega)
  exact isLongInteger_of_length_le (by omega) (by omega)

/-- How the search from a base ends, where so many placeholders are taken. -/
structure Ending (isFree : String → Bool) (entries : Nat) (base : String) (context : AliasContext)
    (draws : Nat) (outcome : EStateM.Result Error AliasContext String) : Prop where
  /-- The search ends, without any bound on its draws. -/
  ends : Search isFree base base context draws outcome
  /-- It cannot end in another way. -/
  unique : ∀ more other, Search isFree base base context more other →
    more = draws ∧ other = outcome
  /-- What is computed is where it ends. -/
  computed : freeCandidate isFree entries base context = outcome
  /-- The counter has moved on by the numbers drawn. The placeholder that was tried last is free
      and found, or it is taken and the next number is too long to be written. -/
  stopsAt : StopsAt isFree (candidate base context.counter draws) (context.advance draws) outcome
  /-- All that was tried before is taken. -/
  before : ∀ i < draws, isFree (candidate base context.counter i) = false
  eq_of_isFree : isFree base = true → draws = 0 ∧ outcome = .ok base context
  draws_le_drawLimit : draws ≤ drawLimit entries
  /-- Something is found, unless one of the next numbers is too long to be written. -/
  found : (∀ k < drawLimit entries, isLongInteger (context.counter + (k : Nat)) = false) →
    ∃ placeholder, outcome = .ok placeholder (context.advance draws)
  draws_le : 0 ≤ context.counter →
    base.length + (integerText (context.counter + entries)).length ≤ maxNameLength →
    draws ≤ entries ∧ ∃ placeholder, outcome = .ok placeholder (context.advance draws)

end Search

/-- A bounded search is a search, if it can come to a free candidate. -/
theorem search_firstFree {isFree : String → Bool} {base text : String} {limit before : Nat}
    {counter : Int} {context : AliasContext} (hdrawn : HasDrawn base counter before text context)
    (hfree : ∃ i ≤ limit, isFree (candidate base counter (before + i)) = true) :
    ∃ draws, Search isFree base text context draws (firstFree isFree base limit text context) := by
  induction limit generalizing text before context with
  | zero =>
    obtain ⟨i, hi, hfree⟩ := hfree
    rw [Nat.le_zero.mp hi, Nat.add_zero, ← hdrawn.text_eq] at hfree
    exact ⟨0, .found hfree⟩
  | succ limit ih =>
    rw [firstFree]
    by_cases htaken : isFree text = true
    · rw [if_pos htaken]
      exact ⟨0, .found htaken⟩
    · have hnot : isFree text = false := Bool.eq_false_iff.mpr htaken
      rw [if_neg htaken]
      cases hwritten : isLongInteger context.counter with
      | true =>
        have hnext := AliasContext.nextSuffix_of_long hwritten
        rw [bind_of_error hnext]
        exact ⟨0, .refused hnot hnext⟩
      | false =>
        have hnext := AliasContext.nextSuffix_of_short hwritten
        obtain ⟨i, hi, hfree⟩ := hfree
        -- The free candidate is not the one that is taken, so it is one of those behind it.
        have hpos : i ≠ 0 := by
          rintro rfl
          exact htaken (hdrawn.text_eq ▸ hfree)
        obtain ⟨draws, hsearch⟩ := ih hdrawn.next
          ⟨i - 1, by omega, by rwa [show before + 1 + (i - 1) = before + i by omega]⟩
        rw [bind_of_ok hnext]
        exact ⟨draws + 1, .draw hnot hnext hsearch⟩

/-- A search among finitely many taken placeholders ends. -/
theorem exists_ending {isFree : String → Bool} {taken : List String}
    (htaken : ∀ text, isFree text = false → text ∈ taken) (base : String)
    (context : AliasContext) :
    ∃ draws outcome, Search.Ending isFree taken.length base context draws outcome := by
  -- Enough numbers in a row have texts of one length, so one of the candidates is free.
  obtain ⟨i, -, hi, hfree⟩ := exists_isFree_candidate htaken base context.counter
  have hreached : ∃ j ≤ drawLimit taken.length,
      isFree (candidate base context.counter (0 + j)) = true := ⟨i, hi, by rwa [Nat.zero_add]⟩
  obtain ⟨draws, hsearch⟩ := search_firstFree (.start base context) hreached
  obtain ⟨hstops, hbefore⟩ := hsearch.stopsAt
  obtain ⟨hle, hfound⟩ := hsearch.draws_le_of_isFree hfree
  refine ⟨draws, _, hsearch, fun more other hother => hother.unique hsearch, rfl, hstops, hbefore,
    hsearch.eq_of_isFree, by omega, fun hwritten => ?_, fun hcounter hroom => ?_⟩
  · exact hfound fun k hk => hwritten k (by omega)
  · exact hsearch.draws_le htaken hcounter hroom

/-- The placeholder that is found is free. -/
theorem draws_freeCandidate {isFree : String → Bool} {taken : List String}
    (htaken : ∀ text, isFree text = false → text ∈ taken) (base : String)
    (context : AliasContext) :
    Draws (freeCandidate isFree taken.length base) context (drawLimit taken.length)
      fun placeholder drawn =>
        placeholder = candidate base context.counter drawn ∧ isFree placeholder = true := by
  obtain ⟨draws, outcome, hending⟩ := exists_ending htaken base context
  refine ⟨draws, hending.draws_le_drawLimit, ?_⟩
  rw [hending.computed]
  rcases hending.stopsAt with ⟨houtcome, hfree⟩ | ⟨houtcome, -, hlong⟩
  · exact .inl ⟨_, houtcome, rfl, hfree⟩
  · exact .inr ⟨houtcome, hlong⟩

/-! ### Searches in registries -/

theorem Registry.mem_of_get? {α : Type} {registry : Registry α} {placeholder : String}
    {meaning : α} (h : registry.get? placeholder = some meaning) :
    placeholder ∈ registry.map Prod.fst := by
  obtain ⟨before, after, happend, -⟩ := List.lookup_eq_some_iff.mp h
  rw [happend, List.map_append, List.map_cons]
  exact List.mem_append_right _ List.mem_cons_self

namespace AliasState

theorem mem_of_isFreeFor_eq_false (state : AliasState) (name : String) {text : String}
    (h : state.isFreeFor name text = false) :
    text ∈ state.names.map Prod.fst ++ state.taken := by
  rw [isFreeFor] at h
  rw [List.mem_append]
  split at h
  · rename_i hget
    exact .inl (Registry.mem_of_get? hget)
  · rw [Bool.not_eq_false', List.contains_iff_mem] at h
    exact .inr h

theorem mem_of_isFreeForValue_eq_false (state : AliasState) {text : String}
    (h : state.isFreeForValue text = false) :
    text ∈ state.values.map Prod.fst := by
  rw [isFreeForValue, Option.isNone_eq_false_iff, Option.isSome_iff_exists] at h
  obtain ⟨value, hget⟩ := h
  exact Registry.mem_of_get? hget

/-- Whatever is registered, from every base and at every counter, the search for a placeholder of a
    name ends, and so does that for a placeholder of a value. It ends with a free placeholder unless
    it comes to a number that is too long to be written. -/
theorem search_ends (state : AliasState) (name base : String) (context : AliasContext) :
    (∃ draws outcome, Search.Ending (state.isFreeFor name)
      (state.names.length + state.taken.length) base context draws outcome) ∧
    ∃ draws outcome, Search.Ending state.isFreeForValue state.values.length base context draws
      outcome := by
  constructor
  · have hnames := exists_ending (fun _ => state.mem_of_isFreeFor_eq_false name) base context
    rwa [List.length_append, List.length_map] at hnames
  · have hvalues := exists_ending (fun _ => state.mem_of_isFreeForValue_eq_false) base context
    rwa [List.length_map] at hvalues

/-- The name has to have a number, since another one has its placeholder, and the next number is too
    long to be written. -/
theorem search_of_long_number :
    let state : AliasState := ⟨⟨.null, firstLongInteger, []⟩, [("#aB", "aB")], [], []⟩
    (∀ draws placeholder final, ¬Search (state.isFreeFor "a-b") "#aB" "#aB" state.context draws
      (.ok placeholder final)) ∧
    freeCandidate (state.isFreeFor "a-b") 1 "#aB" state.context =
      .error (.tooManyDigits none) state.context := by
  intro state
  have htaken : state.isFreeFor "a-b" "#aB" = false := by decide
  have hnumber : isLongInteger firstLongInteger = true := by
    rw [isLongInteger, Int.natAbs_natCast]
    exact decide_eq_true_iff.mpr (Nat.le_refl _)
  have hnext : state.context.nextSuffix = .error (.tooManyDigits none) state.context :=
    AliasContext.nextSuffix_of_long hnumber
  constructor
  · intro draws placeholder final h
    cases (h.unique (.refused htaken hnext)).2
  · rw [freeCandidate, drawLimit, firstFree, if_neg (Bool.eq_false_iff.mp htaken),
      bind_of_error hnext]

end AliasState

end ItemDelta
