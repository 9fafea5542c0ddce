import ItemDelta.Json.Reader
import ItemDelta.Proofs.Json.Plain
import ItemDelta.Proofs.Number.Numeral
import ItemDelta.Proofs.Text.Quoted

/-!
# Indented texts

How the indented text of a plain value starts and ends, what blanks are in it, and that it is ASCII.

## Main results

* `Json.exists_indented_eq_cons` — the text starts with no blank.
* `Json.skipSpace_newLine_append` — lines are skipped with their indentation.
* `Json.isAscii_of_mem_indented` — the text is ASCII.
* `Json.getLast?_indented` — the text ends in no line feed.
-/

namespace ItemDelta

namespace Json

variable {v : Value} {vs : List Value} {members : Members} {n : Int} {c : Char}
  {text tail rest : List Char}

/-! ### Front and back -/

theorem isDigit_of_mem_integerDigits (h : c ∈ integerDigits n) : c.isDigit = true ∨ c = '-' := by
  cases n with
  | ofNat n => exact .inl (isDigit_of_mem_decimalDigits h)
  | negSucc n => exact (List.mem_cons.mp h).symm.imp_left isDigit_of_mem_decimalDigits

/-- The text of an integer does not start like anything else. -/
theorem exists_integerDigits_eq_cons (n : Int) : ∃ c tail, integerDigits n = c :: tail ∧
    c ∉ ['"', '[', ']', '\x7b', ' ', '\t', '\n', '\r'] := by
  have hother : ['"', '[', ']', '\x7b', ' ', '\t', '\n', '\r'].all (!·.isDigit) = true := by
    decide
  cases n with
  | ofNat n =>
    obtain ⟨c, digits, hcons, hc, -⟩ := exists_decimalDigits_eq_cons n
    refine ⟨c, digits, hcons, fun hmem => ?_⟩
    have hdigit := List.all_eq_true.mp hother c hmem
    rw [hc] at hdigit
    cases hdigit
  | negSucc n => exact ⟨'-', _, rfl, by decide⟩

theorem indented_of_not_isContainer (hv : v.isContainer = false) (depth : Nat) :
    indented depth v = scalarChars v := by
  cases v <;> first | rfl | cases hv

theorem exists_scalarChars_eq_cons (hplain : v.isPlain = true) :
    ∃ c tail, scalarChars v = c :: tail ∧ isSpace c = false ∧ c ≠ ']' := by
  cases v with
  | bool b => cases b <;> exact ⟨_, _, rfl, by decide, by decide⟩
  | int n =>
    obtain ⟨c, tail, hcons, hc⟩ := exists_integerDigits_eq_cons n
    simp only [List.mem_cons, not_or] at hc
    exact ⟨c, tail, hcons, by simp [isSpace, hc], hc.2.2.1⟩
  | float x => cases hplain
  | _ => exact ⟨_, _, rfl, by decide, by decide⟩

/-- The text of a plain value starts neither with a blank nor like the end of a list. -/
theorem exists_indented_eq_cons (hplain : v.isPlain = true) (depth : Nat) :
    ∃ c tail, indented depth v = c :: tail ∧ isSpace c = false ∧ c ≠ ']' := by
  by_cases hv : v.isContainer = true
  · cases v with
    | list items => cases items <;> exact ⟨'[', _, rfl, rfl, by decide⟩
    | map members => cases members <;> exact ⟨'\x7b', _, rfl, rfl, by decide⟩
    | _ => cases hv
  · rw [indented_of_not_isContainer (Bool.not_eq_true _ ▸ hv)]
    exact exists_scalarChars_eq_cons hplain

theorem getLast?_indentedItems (depth : Nat) (vs : List Value) :
    (indentedItems depth vs).getLast? = some ']' := by
  induction vs with
  | nil => simp [indentedItems]
  | cons v vs ih =>
    rw [indentedItems, List.getLast?_append, ih]
    rfl

theorem getLast?_indentedMembers (depth : Nat) (members : Members) :
    (indentedMembers depth members).getLast? = some '\x7d' := by
  induction members with
  | nil => simp [indentedMembers]
  | cons member members ih =>
    rw [indentedMembers, List.getLast?_append, ih]
    rfl

/-- The text of a plain value does not end in a line feed. -/
theorem getLast?_indented (hplain : v.isPlain = true) (depth : Nat) :
    (indented depth v).getLast? ≠ some '\n' := by
  cases v with
  | null => simp [indented, scalarChars]
  | bool b => cases b <;> simp [indented, scalarChars]
  | int n =>
    intro hlast
    obtain hdigit | hminus := isDigit_of_mem_integerDigits (List.mem_of_getLast? hlast)
    · cases hdigit
    · cases hminus
  | text s =>
    rw [indented_of_not_isContainer rfl, scalarChars, quoteAscii, List.getLast?_append]
    simp
  | float x => cases hplain
  | decimal d => cases hplain
  | set elements => cases hplain
  | list items =>
    cases items with
    | nil => simp [indented]
    | cons v vs =>
      rw [indented, List.getLast?_append, getLast?_indentedItems]
      simp
  | map members =>
    cases members with
    | nil => simp [indented]
    | cons member members =>
      rw [indented, List.getLast?_append, getLast?_indentedMembers]
      simp

/-! ### Blanks -/

theorem skipSpace_cons (hc : isSpace c = false) : skipSpace (c :: tail) = c :: tail := by
  rw [skipSpace, List.dropWhile_cons_of_neg]
  simp [hc]

/-- A new line is skipped with its indentation. -/
theorem skipSpace_newLine_append (depth : Nat) (text : List Char) :
    skipSpace (newLine depth ++ text) = skipSpace text := by
  apply List.dropWhile_append_of_pos
  intro c hc
  rw [newLine, List.mem_cons, List.mem_replicate] at hc
  obtain rfl | ⟨-, rfl⟩ := hc <;> rfl

theorem skipSpace_indented (hplain : v.isPlain = true) (depth : Nat) (rest : List Char) :
    skipSpace (indented depth v ++ rest) = indented depth v ++ rest := by
  obtain ⟨c, tail, hcons, hc, -⟩ := exists_indented_eq_cons hplain depth
  rw [hcons]
  exact skipSpace_cons hc

theorem quoteAscii_append (text rest : List Char) :
    quoteAscii text ++ rest = '"' :: (text.flatMap escapeAscii ++ '"' :: rest) := by
  simp [quoteAscii]

theorem skipSpace_keyChars (key : Key) (rest : List Char) :
    skipSpace (keyChars key ++ rest) = keyChars key ++ rest := by
  cases key <;> rw [keyChars, quoteAscii_append] <;> exact skipSpace_cons rfl

theorem skipSpace_indentedItems_nil (depth : Nat) (rest : List Char) :
    skipSpace (indentedItems depth [] ++ rest) = ']' :: rest := by
  rw [indentedItems, List.append_assoc]
  exact skipSpace_newLine_append depth _

theorem skipSpace_indentedItems_cons (depth : Nat) (v : Value) (vs : List Value)
    (rest : List Char) : skipSpace (indentedItems depth (v :: vs) ++ rest) =
      ',' :: (newLine (depth + 1) ++ (indented (depth + 1) v ++
        (indentedItems depth vs ++ rest))) := by
  simp only [indentedItems, List.cons_append, List.append_assoc]
  exact skipSpace_cons rfl

theorem skipSpace_indentedMembers_nil (depth : Nat) (rest : List Char) :
    skipSpace (indentedMembers depth [] ++ rest) = '\x7d' :: rest := by
  rw [indentedMembers, List.append_assoc]
  exact skipSpace_newLine_append depth _

theorem skipSpace_indentedMembers_cons (depth : Nat) (key : Key) (v : Value) (members : Members)
    (rest : List Char) : skipSpace (indentedMembers depth ((key, v) :: members) ++ rest) =
      ',' :: (newLine (depth + 1) ++ (keyChars key ++ ':' :: ' ' :: (indented (depth + 1) v ++
        (indentedMembers depth members ++ rest)))) := by
  simp only [indentedMembers, List.cons_append, List.append_assoc]
  exact skipSpace_cons rfl

theorem endsNumeral_newLine (depth : Nat) (rest : List Char) :
    EndsNumeral (newLine depth ++ rest) :=
  endsNumeral_cons (by decide) _

theorem endsNumeral_indentedItems (depth : Nat) (vs : List Value) (rest : List Char) :
    EndsNumeral (indentedItems depth vs ++ rest) := by
  cases vs with
  | nil =>
    rw [indentedItems, List.append_assoc]
    exact endsNumeral_newLine depth _
  | cons v vs => exact endsNumeral_cons (by decide) _

theorem endsNumeral_indentedMembers (depth : Nat) (members : Members) (rest : List Char) :
    EndsNumeral (indentedMembers depth members ++ rest) := by
  cases members with
  | nil =>
    rw [indentedMembers, List.append_assoc]
    exact endsNumeral_newLine depth _
  | cons member members => exact endsNumeral_cons (by decide) _

/-! ### ASCII -/

theorem isAscii_of_mem_newLine {depth : Nat} (hc : c ∈ newLine depth) : IsAscii c := by
  rw [newLine, List.mem_cons, List.mem_replicate] at hc
  obtain rfl | ⟨-, rfl⟩ := hc <;> decide

theorem isAscii_of_mem_keyChars {key : Key} (hc : c ∈ keyChars key) : IsAscii c := by
  cases key <;> exact isAscii_of_mem_quoteAscii hc

theorem isAscii_of_mem_scalarChars (hplain : v.isPlain = true) (hc : c ∈ scalarChars v) :
    IsAscii c := by
  cases v with
  | bool b =>
    apply isAscii_of_all _ hc
    cases b <;> decide
  | int n =>
    obtain hdigit | rfl := isDigit_of_mem_integerDigits hc
    · have hcode : 48 ≤ c.toNat ∧ c.toNat ≤ 57 := by
        simpa [Char.isDigit, UInt32.le_iff_toNat_le] using hdigit
      show c.toNat < 128
      omega
    · decide
  | text s => exact isAscii_of_mem_quoteAscii hc
  | float x => cases hplain
  | _ =>
    -- all others are written like null
    have hnull : c ∈ scalarChars .null := hc
    exact isAscii_of_all (by decide) hnull

/-- The text behind the first element of a list is ASCII if that of every element is. -/
theorem isAscii_of_mem_indentedItems (h : ∀ v ∈ vs, ∀ depth, ∀ c ∈ indented depth v, IsAscii c)
    (depth : Nat) : ∀ c ∈ indentedItems depth vs, IsAscii c := by
  have hline : ∀ {depth}, ∀ c ∈ newLine depth, IsAscii c := fun _ => isAscii_of_mem_newLine
  induction vs with
  | nil =>
    simp only [indentedItems, List.forall_mem_append, List.forall_mem_singleton]
    exact ⟨hline, by decide⟩
  | cons v vs ih =>
    simp only [indentedItems, List.forall_mem_append, List.forall_mem_cons]
    exact ⟨⟨⟨by decide, hline⟩, h v List.mem_cons_self (depth + 1)⟩,
      ih fun w hw => h w (List.mem_cons_of_mem v hw)⟩

/-- The text behind the first member of a map is ASCII if that of every member's value is. -/
theorem isAscii_of_mem_indentedMembers
    (h : ∀ key v, (key, v) ∈ members → ∀ depth, ∀ c ∈ indented depth v, IsAscii c) (depth : Nat) :
    ∀ c ∈ indentedMembers depth members, IsAscii c := by
  have hline : ∀ {depth}, ∀ c ∈ newLine depth, IsAscii c := fun _ => isAscii_of_mem_newLine
  induction members with
  | nil =>
    simp only [indentedMembers, List.forall_mem_append, List.forall_mem_singleton]
    exact ⟨hline, by decide⟩
  | cons member members ih =>
    have hkey : ∀ c ∈ keyChars member.1, IsAscii c := fun _ => isAscii_of_mem_keyChars
    simp only [indentedMembers, List.forall_mem_append, List.forall_mem_cons]
    exact ⟨⟨⟨⟨by decide, hline⟩, hkey⟩, by decide, by decide,
      h member.1 member.2 List.mem_cons_self (depth + 1)⟩,
      ih fun key w hw => h key w (List.mem_cons_of_mem _ hw)⟩

/-- The text of a plain value is ASCII. -/
theorem isAscii_of_mem_indented (h : v.IsPlain) (depth : Nat) :
    ∀ c ∈ indented depth v, IsAscii c := by
  have hline : ∀ {depth}, ∀ c ∈ newLine depth, IsAscii c := fun _ => isAscii_of_mem_newLine
  induction v using Value.containerInduction generalizing depth with
  | leaf v hv =>
    rw [indented_of_not_isContainer hv]
    exact fun c => isAscii_of_mem_scalarChars h.root
  | list items ih =>
    cases items with
    | nil =>
      rw [indented]
      exact fun c => isAscii_of_all (by decide)
    | cons v vs =>
      have hitems : ∀ w ∈ v :: vs, ∀ depth, ∀ c ∈ indented depth w, IsAscii c :=
        fun w hw => ih w hw (h.item hw)
      simp only [indented, List.forall_mem_append, List.forall_mem_cons]
      exact ⟨⟨⟨by decide, hline⟩, hitems v List.mem_cons_self (depth + 1)⟩,
        isAscii_of_mem_indentedItems (fun w hw => hitems w (List.mem_cons_of_mem v hw)) depth⟩
  | map members ih =>
    cases members with
    | nil =>
      rw [indented]
      exact fun c => isAscii_of_all (by decide)
    | cons member members =>
      have hmembers : ∀ key w, (key, w) ∈ member :: members → ∀ depth,
          ∀ c ∈ indented depth w, IsAscii c :=
        fun key w hw => ih key w hw (h.member hw)
      have hkey : ∀ c ∈ keyChars member.1, IsAscii c := fun _ => isAscii_of_mem_keyChars
      simp only [indented, List.forall_mem_append, List.forall_mem_cons]
      exact ⟨⟨⟨⟨by decide, hline⟩, hkey⟩, by decide, by decide,
        hmembers member.1 member.2 List.mem_cons_self (depth + 1)⟩,
        isAscii_of_mem_indentedMembers (fun key w hw => hmembers key w (List.mem_cons_of_mem _ hw))
          depth⟩

end Json

end ItemDelta
