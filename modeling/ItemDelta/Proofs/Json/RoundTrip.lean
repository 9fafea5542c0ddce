import ItemDelta.Proofs.Json.Indented

/-!
# JSON, read back

What is written is read back, but for what JSON cannot say: an integer stands for an integral
decimal, an ascending list for a set, and the order of members is lost. The text is ASCII and ends
in one line feed.

## Main definitions

* `Value.withNumbers` — a value with its integers as they are read.
* `Json.IsRead` — a value is read back from its indented text, whatever follows.

## Main results

* `Json.readItems_indented`, `Json.readMembers_indented` — what is read of a list and of a map.
* `Json.isRead_of_isPlain` — plain values are read back.
* `readJson_of_writeJson` — what becomes of a document that is written and read.
-/

namespace ItemDelta

/-- An integer as it is read: as it is, or as the equal decimal. -/
def Numbers.ofInt (numbers : Numbers) (n : Int) : Value :=
  match numbers with
  | .binary => .int n
  | .decimal => .decimal (.ofInt n)

theorem Members.insert_of_notMem {members : Members} {key : Key} (h : key ∉ members.keys)
    (value : Value) : members.insert key value = members ++ [(key, value)] := by
  induction members with
  | nil => rfl
  | cons member rest ih =>
    obtain ⟨k, v⟩ := member
    rw [Members.keys_cons, List.mem_cons, not_or] at h
    rw [Members.insert, if_neg (Ne.symm h.1), ih h.2, List.cons_append]

namespace Value

mutual

/-- A value with its integers as they are read. -/
def withNumbers (numbers : Numbers) : Value → Value
  | .int n => numbers.ofInt n
  | .list items => .list (itemsWithNumbers numbers items)
  | .map members => .map (membersWithNumbers numbers members)
  | v => v

/-- Several values with their integers as they are read. -/
def itemsWithNumbers (numbers : Numbers) : List Value → List Value
  | [] => []
  | v :: vs => withNumbers numbers v :: itemsWithNumbers numbers vs

/-- Several members, the integers in their values as they are read. -/
def membersWithNumbers (numbers : Numbers) : List (Key × Value) → List (Key × Value)
  | [] => []
  | (key, v) :: members => (key, withNumbers numbers v) :: membersWithNumbers numbers members

end

variable {numbers : Numbers}

theorem itemsWithNumbers_eq_map (vs : List Value) :
    itemsWithNumbers numbers vs = vs.map (withNumbers numbers) := by
  induction vs with
  | nil => rfl
  | cons v vs ih => rw [itemsWithNumbers, ih, List.map_cons]

theorem membersWithNumbers_eq_map (members : Members) : membersWithNumbers numbers members =
    members.map fun member => (member.1, withNumbers numbers member.2) := by
  induction members with
  | nil => rfl
  | cons member members ih => rw [membersWithNumbers, ih, List.map_cons]

theorem withNumbers_binary (v : Value) : v.withNumbers .binary = v := by
  induction v using containerInduction with
  | leaf v hv => cases v <;> first | rfl | cases hv
  | list items ih =>
    have hsame : ∀ v ∈ items, withNumbers .binary v = id v := ih
    rw [withNumbers, itemsWithNumbers_eq_map, List.map_congr_left hsame, List.map_id]
  | map members ih =>
    have hsame : ∀ member ∈ members, (member.1, withNumbers .binary member.2) = id member :=
      fun member hmember => Prod.ext rfl (ih member.1 member.2 hmember)
    rw [withNumbers, membersWithNumbers_eq_map, List.map_congr_left hsame, List.map_id]

end Value

namespace Json

variable {numbers : Numbers} {v : Value} {vs : List Value} {members : Members} {n : Int}
  {c : Char} {text tail rest : List Char}

/-! ### Scalars -/

/-- The numeral of an integer that is not too long stands for the integer. -/
theorem ofNumeral_ofInt (hn : isLongInteger n = false) :
    ofNumeral numbers (Numeral.ofInt n) = .ok (numbers.ofInt n) := by
  have hlength : (decimalDigits n.natAbs).length ≤ integerDigitLimit := by
    rw [isLongInteger, decide_eq_false_iff_not, not_le] at hn
    unfold firstLongInteger at hn
    exact (length_decimalDigits_le_iff (by decide)).mpr hn
  cases numbers with
  | binary =>
    have hwhole : ¬integerDigitLimit < (Numeral.ofInt n).whole.length := not_lt.mpr hlength
    have hintegral : (Numeral.ofInt n).isIntegral = true := rfl
    rw [ofNumeral, if_pos hintegral, if_neg hwhole, Numeral.toInt_ofInt]
    rfl
  | decimal =>
    have hsame : Decimal.ofNumeral (Numeral.ofInt n) = Decimal.ofInt n := by
      simp [Decimal.ofNumeral, Decimal.ofInt, Numeral.ofInt, Numeral.coefficient, Numeral.digits,
        Numeral.scale]
    have hdigits : (0 : Int) + Decimal.digitCount n.natAbs - 1 ≤ Decimal.maxExponent := by
      unfold integerDigitLimit at hlength
      unfold Decimal.digitCount Decimal.maxExponent
      omega
    have hrange : (Decimal.ofInt n).inRange = true := by
      rw [Decimal.ofInt, Decimal.inRange, Bool.and_eq_true]
      exact ⟨rfl, decide_eq_true hdigits⟩
    rw [ofNumeral, hsame]
    exact if_pos hrange

/-- No word starts like a number. -/
theorem scanWord?_integerDigits (n : Int) (rest : List Char) :
    scanWord? (integerDigits n ++ rest) = none := by
  have hne : ∀ {c d : Char}, c.isDigit = true → d.isDigit = false → d ≠ c := by
    rintro c d hc hd rfl
    rw [hc] at hd
    cases hd
  cases n with
  | ofNat n =>
    obtain ⟨c, digits, hcons, hc, -⟩ := exists_decimalDigits_eq_cons n
    simp [integerDigits, hcons, scanWord?, words, afterWord?, hne hc]
  | negSucc n =>
    obtain ⟨c, digits, hcons, hc, -⟩ := exists_decimalDigits_eq_cons (n + 1)
    simp [integerDigits, hcons, scanWord?, words, afterWord?, hne hc]

/-- An integer that is not too long is read back. -/
theorem readScalar_integerDigits (numbers : Numbers) (hn : isLongInteger n = false)
    (hrest : EndsNumeral rest) :
    readScalar numbers (integerDigits n ++ rest) = .ok (numbers.ofInt n, rest) := by
  rw [readScalar, scanWord?_integerDigits]
  simp only [Numeral.scan?_integerDigits n hrest, ofNumeral_ofInt hn]
  rfl

/-- What does not start like a text, a list or a map is a word or a number. -/
theorem readValue_scalar {steps : Nat} (h : c ≠ '"' ∧ c ≠ '[' ∧ c ≠ '\x7b') :
    readValue numbers (steps + 1) (c :: tail) = readScalar numbers (c :: tail) := by
  rw [readValue]
  · intro _ heq
    exact h.1 (List.cons.inj heq).1
  · intro _ heq
    exact h.2.1 (List.cons.inj heq).1
  · intro _ heq
    exact h.2.2 (List.cons.inj heq).1

/-- A scalar is read back. -/
theorem readValue_scalarChars (hv : v.isContainer = false) (hplain : v.isPlain = true)
    (hrest : EndsNumeral rest) (steps : Nat) :
    readValue numbers (steps + 1) (scalarChars v ++ rest) =
      .ok (v.withNumbers numbers, rest) := by
  cases v with
  | null =>
    simp [scalarChars, readValue, readScalar, scanWord?, words, afterWord?, Value.withNumbers]
  | bool b =>
    cases b <;>
      simp [scalarChars, readValue, readScalar, scanWord?, words, afterWord?, Value.withNumbers]
  | int n =>
    rw [Value.isPlain, Bool.not_eq_true'] at hplain
    obtain ⟨c, digits, hcons, hc⟩ := exists_integerDigits_eq_cons n
    simp only [List.mem_cons, not_or] at hc
    have hread := readScalar_integerDigits numbers hplain hrest
    rw [scalarChars]
    rw [hcons, List.cons_append] at hread ⊢
    rw [readValue_scalar ⟨hc.1, hc.2.1, hc.2.2.2.1⟩, hread]
    rfl
  | text s =>
    rw [scalarChars, quoteAscii_append, readValue, scanQuoted?_quoteAscii]
    simp [Value.withNumbers]
  | float x => cases hplain
  | decimal d => cases hplain
  | set elements => cases hplain
  | list items => cases hv
  | map members => cases hv

/-! ### One step of reading -/

section Steps

variable {steps : Nat} {name : String} {after final : List Char}

theorem readItems_last (hread : readValue numbers steps text = .ok (v, rest))
    (hskip : skipSpace rest = ']' :: after) :
    readItems numbers (steps + 1) text = .ok ([v], after) := by
  simp only [readItems, hread, bind, Except.bind, hskip]
  rfl

theorem readItems_more (hread : readValue numbers steps text = .ok (v, rest))
    (hskip : skipSpace rest = ',' :: after)
    (hitems : readItems numbers steps (skipSpace after) = .ok (vs, final)) :
    readItems numbers (steps + 1) text = .ok (v :: vs, final) := by
  simp only [readItems, hread, bind, Except.bind, hskip, hitems]
  rfl

theorem readMembers_last (hname : readName text = .ok (name, after))
    (hread : readValue numbers steps after = .ok (v, rest))
    (hskip : skipSpace rest = '\x7d' :: final) :
    readMembers numbers members (steps + 1) text = .ok (members.insert (.name name) v, final) := by
  simp only [readMembers, hname, hread, bind, Except.bind, hskip]
  rfl

theorem readMembers_more (hname : readName text = .ok (name, after))
    (hread : readValue numbers steps after = .ok (v, rest))
    (hskip : skipSpace rest = ',' :: final) :
    readMembers numbers members (steps + 1) text =
      readMembers numbers (members.insert (.name name) v) steps (skipSpace final) := by
  simp only [readMembers, hname, hread, bind, Except.bind, hskip]

theorem readValue_list (hhead : (skipSpace text).head? ≠ some ']')
    (hitems : readItems numbers steps (skipSpace text) = .ok (vs, rest)) :
    readValue numbers (steps + 1) ('[' :: text) = .ok (.list vs, rest) := by
  rw [readValue]
  split
  · rename_i heq
    exact absurd (congrArg List.head? heq) hhead
  · rw [hitems]
    rfl

theorem readValue_map (hhead : (skipSpace text).head? ≠ some '\x7d')
    (hmembers : readMembers numbers [] steps (skipSpace text) = .ok (members, rest)) :
    readValue numbers (steps + 1) ('\x7b' :: text) = .ok (.map members, rest) := by
  rw [readValue]
  split
  · rename_i heq
    exact absurd (congrArg List.head? heq) hhead
  · rw [hmembers]
    rfl

end Steps

/-! ### Lists and maps -/

/-- A plain value is read back from its indented text, at any depth and whatever stands behind. -/
structure IsRead (numbers : Numbers) (v : Value) : Prop where
  plain : v.isPlain = true
  reads : ∀ depth steps rest, EndsNumeral rest → 2 * (indented depth v).length ≤ steps →
    readValue numbers steps (indented depth v ++ rest) = .ok (v.withNumbers numbers, rest)

/-- The name in front of a member is read up to the value behind its colon. -/
theorem readName_keyChars (hplain : v.isPlain = true) (name : String) (depth : Nat)
    (rest : List Char) :
    readName (keyChars (.name name) ++ ':' :: ' ' :: (indented depth v ++ rest)) =
      .ok (name, indented depth v ++ rest) := by
  have hcolon : skipSpace (':' :: ' ' :: (indented depth v ++ rest)) =
      ':' :: ' ' :: (indented depth v ++ rest) := skipSpace_cons rfl
  have hblank : skipSpace (' ' :: (indented depth v ++ rest)) = indented depth v ++ rest :=
    skipSpace_indented hplain depth rest
  rw [keyChars, quoteAscii_append, readName, scanQuoted?_quoteAscii]
  simp only [hcolon, hblank, String.ofList_toList]

/-- The elements of a list are read up to its closing bracket. -/
theorem readItems_indented (hv : IsRead numbers v) (hvs : ∀ w ∈ vs, IsRead numbers w)
    {depth steps : Nat} (hsteps : 2 * ((indented (depth + 1) v).length +
      (indentedItems depth vs).length) ≤ steps) (rest : List Char) :
    readItems numbers steps (indented (depth + 1) v ++ (indentedItems depth vs ++ rest)) =
      .ok ((v :: vs).map (Value.withNumbers numbers), rest) := by
  -- Every element takes one step, and the comma or bracket behind it pays for that.
  induction vs generalizing v steps with
  | nil =>
    simp only [indentedItems, List.length_append, List.length_singleton] at hsteps
    obtain ⟨steps, rfl⟩ : ∃ k, steps = k + 1 := ⟨steps - 1, by omega⟩
    have hread := hv.reads (depth + 1) steps _ (endsNumeral_indentedItems depth [] rest) (by omega)
    exact readItems_last hread (skipSpace_indentedItems_nil depth rest)
  | cons w vs ih =>
    simp only [indentedItems, List.length_append, List.length_cons] at hsteps
    obtain ⟨steps, rfl⟩ : ∃ k, steps = k + 1 := ⟨steps - 1, by omega⟩
    have hw := hvs w List.mem_cons_self
    have hread := hv.reads (depth + 1) steps _ (endsNumeral_indentedItems depth (w :: vs) rest)
      (by omega)
    have hbound : 2 * ((indented (depth + 1) w).length + (indentedItems depth vs).length) ≤
        steps := by
      omega
    have hitems := ih hw (fun u hu => hvs u (List.mem_cons_of_mem w hu)) hbound
    apply readItems_more hread (skipSpace_indentedItems_cons depth w vs rest)
    rw [skipSpace_newLine_append, skipSpace_indented hw.plain]
    exact hitems

/-- The members of a map are read up to its closing brace, and put behind those read before. -/
theorem readMembers_indented {key : Key} (read : Members) (hv : IsRead numbers v)
    (hvs : ∀ k w, (k, w) ∈ members → IsRead numbers w)
    (hnamed : ∀ k ∈ key :: members.keys, ∃ name, k = .name name)
    (hnodup : (read.keys ++ key :: members.keys).Nodup) {depth steps : Nat}
    (hsteps : 2 * ((indented (depth + 1) v).length + (indentedMembers depth members).length + 1) ≤
      steps) (rest : List Char) :
    readMembers numbers read steps (keyChars key ++ ':' :: ' ' :: (indented (depth + 1) v ++
      (indentedMembers depth members ++ rest))) =
        .ok (read ++ ((key, v) :: members).map fun member =>
          (member.1, member.2.withNumbers numbers), rest) := by
  induction members generalizing key v read steps with
  | nil =>
    obtain ⟨name, rfl⟩ := hnamed key List.mem_cons_self
    obtain ⟨steps, rfl⟩ : ∃ k, steps = k + 1 := ⟨steps - 1, by omega⟩
    have hnew : .name name ∉ Members.keys read := fun hmem =>
      List.disjoint_of_nodup_append hnodup hmem List.mem_cons_self
    have hread := hv.reads (depth + 1) steps _ (endsNumeral_indentedMembers depth [] rest)
      (by omega)
    rw [readMembers_last (readName_keyChars hv.plain name _ _) hread
      (skipSpace_indentedMembers_nil depth rest), Members.insert_of_notMem hnew]
    rfl
  | cons member members ih =>
    obtain ⟨next, w⟩ := member
    obtain ⟨name, rfl⟩ := hnamed key List.mem_cons_self
    simp only [indentedMembers, List.length_append, List.length_cons] at hsteps
    obtain ⟨steps, rfl⟩ : ∃ k, steps = k + 1 := ⟨steps - 1, by omega⟩
    -- a name that was not read before comes last
    have hnew : .name name ∉ Members.keys read := fun hmem =>
      List.disjoint_of_nodup_append hnodup hmem List.mem_cons_self
    have hread := hv.reads (depth + 1) steps _
      (endsNumeral_indentedMembers depth ((next, w) :: members) rest) (by omega)
    have hnodup' : (Members.keys (read ++ [(.name name, v.withNumbers numbers)]) ++
        next :: Members.keys members).Nodup := by
      rw [Members.keys, List.map_append, List.append_assoc]
      exact hnodup
    have hbound : 2 * ((indented (depth + 1) w).length +
        (indentedMembers depth members).length + 1) ≤ steps := by
      omega
    have hmembers := ih _ (hvs next w List.mem_cons_self)
      (fun k u hu => hvs k u (List.mem_cons_of_mem _ hu))
      (fun k hk => hnamed k (List.mem_cons_of_mem _ hk)) hnodup' hbound
    obtain ⟨other, rfl⟩ := hnamed next (List.mem_cons_of_mem _ List.mem_cons_self)
    rw [readMembers_more (readName_keyChars hv.plain name _ _) hread
      (skipSpace_indentedMembers_cons depth _ w members rest), Members.insert_of_notMem hnew,
      skipSpace_newLine_append, skipSpace_keyChars, hmembers, List.append_assoc]
    rfl

/-! ### Plain values -/

theorem isRead_scalar (hv : v.isContainer = false) (hplain : v.isPlain = true) :
    IsRead numbers v := by
  refine ⟨hplain, fun depth steps rest hrest hsteps => ?_⟩
  obtain ⟨c, tail, hcons, -⟩ := exists_indented_eq_cons hplain depth
  rw [hcons, List.length_cons] at hsteps
  obtain ⟨steps, rfl⟩ : ∃ k, steps = k + 1 := ⟨steps - 1, by omega⟩
  rw [indented_of_not_isContainer hv]
  exact readValue_scalarChars hv hplain hrest steps

theorem isRead_list (h : ∀ v ∈ vs, IsRead numbers v) : IsRead numbers (.list vs) := by
  refine ⟨rfl, fun depth steps rest _ hsteps => ?_⟩
  cases vs with
  | nil =>
    simp only [indented, List.length_cons] at hsteps
    obtain ⟨steps, rfl⟩ : ∃ k, steps = k + 1 := ⟨steps - 1, by omega⟩
    simp only [indented, List.cons_append, List.nil_append, readValue]
    rw [skipSpace_cons rfl]
    rfl
  | cons v vs =>
    simp only [indented, List.length_append, List.length_cons] at hsteps
    obtain ⟨steps, rfl⟩ : ∃ k, steps = k + 1 := ⟨steps - 1, by omega⟩
    have hv := h v List.mem_cons_self
    have hbound : 2 * ((indented (depth + 1) v).length + (indentedItems depth vs).length) ≤
        steps := by
      omega
    have hitems := readItems_indented hv (fun w hw => h w (List.mem_cons_of_mem v hw)) hbound rest
    have hskip := skipSpace_newLine_append (depth + 1)
      (indented (depth + 1) v ++ (indentedItems depth vs ++ rest))
    rw [skipSpace_indented hv.plain] at hskip
    simp only [indented, List.cons_append, List.append_assoc]
    rw [readValue_list _ (hskip.symm ▸ hitems), Value.withNumbers, Value.itemsWithNumbers_eq_map]
    -- the first element is not taken for the end of an empty list
    obtain ⟨c, tail, hcons, -, hend⟩ := exists_indented_eq_cons hv.plain (depth + 1)
    rw [hskip, hcons]
    simp [hend]

theorem isRead_map (hnames : (Value.map members).hasNames = true)
    (h : ∀ key v, (key, v) ∈ members → IsRead numbers v) : IsRead numbers (.map members) := by
  refine ⟨rfl, fun depth steps rest _ hsteps => ?_⟩
  cases members with
  | nil =>
    simp only [indented, List.length_cons] at hsteps
    obtain ⟨steps, rfl⟩ : ∃ k, steps = k + 1 := ⟨steps - 1, by omega⟩
    simp only [indented, List.cons_append, List.nil_append, readValue]
    rw [skipSpace_cons rfl]
    rfl
  | cons member members =>
    obtain ⟨key, v⟩ := member
    simp only [indented, List.length_append, List.length_cons] at hsteps
    obtain ⟨steps, rfl⟩ : ∃ k, steps = k + 1 := ⟨steps - 1, by omega⟩
    have hnamed : ∀ k ∈ key :: Members.keys members, ∃ name, k = .name name := fun k hk =>
      Value.exists_name_of_hasNames hnames hk
    have hbound : 2 * ((indented (depth + 1) v).length +
        (indentedMembers depth members).length + 1) ≤ steps := by
      omega
    have hmembers := readMembers_indented [] (h key v List.mem_cons_self)
      (fun k w hw => h k w (List.mem_cons_of_mem _ hw)) hnamed (Value.nodup_keys_of_hasNames hnames)
      hbound rest
    have hskip := skipSpace_newLine_append (depth + 1) (keyChars key ++ ':' :: ' ' ::
      (indented (depth + 1) v ++ (indentedMembers depth members ++ rest)))
    rw [skipSpace_keyChars] at hskip
    simp only [indented, List.cons_append, List.append_assoc]
    rw [readValue_map _ (hskip.symm ▸ hmembers), Value.withNumbers,
      Value.membersWithNumbers_eq_map]
    · rfl
    · obtain ⟨name, rfl⟩ := hnamed key List.mem_cons_self
      rw [hskip, keyChars, quoteAscii_append]
      simp

/-- Plain values are read back. -/
theorem isRead_of_isPlain (h : v.IsPlain) : IsRead numbers v := by
  induction v using Value.containerInduction with
  | leaf v hv => exact isRead_scalar hv h.root
  | list items ih => exact isRead_list fun v hv => ih v hv (h.item hv)
  | map members ih =>
    exact isRead_map h.hasNames fun key v hv => ih key v hv (h.member hv)

/-- The text of a plain value is read as the value. -/
theorem readJson_indented (h : v.IsPlain) :
    readJson numbers (String.ofList (indented 0 v ++ ['\n'])) = .ok (v.withNumbers numbers) := by
  have hread : IsRead numbers v := isRead_of_isPlain h
  have hskip := skipSpace_indented hread.plain 0 ['\n']
  have hvalue := hread.reads 0 (2 * (indented 0 v ++ ['\n']).length + 2) ['\n']
    (endsNumeral_cons (by decide) []) (by simp; omega)
  rw [readJson, String.toList_ofList, hskip]
  show Except.bind _ _ = _
  rw [hvalue]
  rfl

end Json

/-! ### Documents -/

/-- A document that can be written is written as an ASCII text that ends in one line feed, whatever
    the order of its members, and what is read of the text is the document with integers for
    integral decimals and ascending lists for sets, or with decimals for all of its numbers. -/
theorem readJson_of_writeJson {v : Value} (h : v.IsWritable) : ∃ text, writeJson v = .ok text ∧
    (∀ c ∈ text.toList, IsAscii c) ∧
    (∃ body, text.toList = body ++ ['\n'] ∧ body.getLast? ≠ some '\n') ∧
    (∀ w, v.Reordered w → writeJson w = .ok text) ∧
    ∃ result, readJson .binary text = .ok result ∧ result.Reordered v.listed ∧
      readJson .decimal text = .ok (result.withNumbers .decimal) := by
  have hplain : v.listed.sortMembers.IsPlain :=
    (Value.isPlain_listed h).sortMembers (fun _ => rfl) fun _ _ _ _ => rfl
  have hform := Value.plainForm_of_isWritable h
  refine ⟨String.ofList (Json.indented 0 v.listed.sortMembers ++ ['\n']), ?_, ?_, ?_, ?_,
    v.listed.sortMembers, ?_, ?_, ?_⟩
  · rw [writeJson, hform]
    rfl
  · rw [String.toList_ofList, List.forall_mem_append, List.forall_mem_singleton]
    exact ⟨Json.isAscii_of_mem_indented hplain 0, by decide⟩
  · exact ⟨_, String.toList_ofList, Json.getLast?_indented hplain.root 0⟩
  · intro w hw
    rw [writeJson, ← Value.plainForm_eq_of_reordered hw h.named, hform]
    rfl
  · rw [Json.readJson_indented hplain, Value.withNumbers_binary]
  · exact Value.sortMembers_reordered _ (Value.isPlain_listed h).named
  · exact Json.readJson_indented hplain

/-- A document with a decimal, a set and names that have to be escaped. -/
theorem readJson_of_mixed_document :
    ∃ text, writeJson (.ofNamed [("b\n😀", .decimal (.finite false 15 1)),
        ("a", .set [.int 3, .int (-1)]),
        ("", .list [.null, .bool true, .text "\\é", .map []])]) = .ok text ∧
      ∃ result, readJson .binary text = .ok result ∧
        result.Reordered (.ofNamed [("b\n😀", .int 150), ("a", .list [.int (-1), .int 3]),
          ("", .list [.null, .bool true, .text "\\é", .map []])]) ∧
        readJson .decimal text = .ok (result.withNumbers .decimal) := by
  have hwritable : (Value.ofNamed [("b\n😀", .decimal (.finite false 15 1)),
      ("a", .set [.int 3, .int (-1)]),
      ("", .list [.null, .bool true, .text "\\é", .map []])]).IsWritable :=
    ⟨by decide, by decide +kernel⟩
  have hlisted : (Value.ofNamed [("b\n😀", .decimal (.finite false 15 1)),
      ("a", .set [.int 3, .int (-1)]),
      ("", .list [.null, .bool true, .text "\\é", .map []])]).listed =
        .ofNamed [("b\n😀", .int 150), ("a", .list (Value.sortElements [.int 3, .int (-1)])),
          ("", .list [.null, .bool true, .text "\\é", .map []])] := rfl
  have hsorted : Value.sortElements [.int 3, .int (-1)] = [.int (-1), .int 3] := by
    have hints : [3, -1].mergeSort (fun n m : Int => n ≤ m) = [-1, 3] := by simp [List.mergeSort]
    exact (Value.sortElements_map_int [3, -1]).trans (congrArg (List.map Value.int) hints)
  rw [hsorted] at hlisted
  obtain ⟨text, hwrite, -, -, -, result, hread, hresult, hdecimal⟩ :=
    readJson_of_writeJson hwritable
  exact ⟨text, hwrite, result, hread, hlisted ▸ hresult, hdecimal⟩

end ItemDelta
