import ItemDelta.Proofs.Layout
import ItemDelta.Report.Document

/-!
# What is shown of a value

A report on a value is made of lines, each of which has a text behind a lead: the value itself if
it stands on one line, and otherwise its parts, each beside its label or, further in, below it. The
lead of a line is that of the report and two blanks for every part that the line is inside of.

## Main definitions

* `Value.labelled` — the parts of a value under their labels.
* `Shows`, `ShowsPart` — what is shown of a value, and behind which lead.
* `IsMadeOf` — a report is made of texts behind leads.
* `Value.hasSingleLineNames` — no name has a line feed.

## Main results

* `isMadeOf_valueLines` — a report is made of what is shown of its value.
* `exists_shows_iff` — something is shown of every value but of an empty list behind a long lead.
* `exists_reportChars` — a value that can be shown has a report.
* `Shows.isHanging` — what is shown goes on behind a blank, unless a name has a line feed.
* `lineFeed_notMem_formatChars` — a value whose inspected form fits stands on one line.
-/

namespace ItemDelta

/-! ### What is shown of a value -/

/-- The parts of a value under their labels. -/
def Value.labelled : Value → List (List Char × Value)
  | .map members => members.map fun (key, v) => (key.label, v)
  | .list items => items.zipIdx.map fun (v, position) => (indexStep position, v)
  | _ => []

mutual

/-- A text is shown of a value, and stands behind a lead. -/
inductive Shows : String → Value → String → List Char → Prop where
  | alone {lead : String} {v : Value} {text : List Char} :
      isInline (.text lead) v = .ok true → formatChars v = .ok text → Shows lead v lead text
  | part {lead behind : String} {v : Value} {part : List Char × Value} {text : List Char} :
      isInline (.text lead) v = .ok false → part ∈ v.labelled → ShowsPart lead part behind text →
      Shows lead v behind text

/-- A text is shown of a part under its label, and stands behind a lead. -/
inductive ShowsPart : String → List Char × Value → String → List Char → Prop where
  | beside {lead : String} {label text : List Char} {v : Value} :
      isInline (.text lead) v = .ok true → formatChars v = .ok text →
      ShowsPart lead (label, v) lead (label ++ ':' :: ' ' :: text)
  | heading {lead : String} {label : List Char} {v : Value} :
      isInline (.text lead) v = .ok false → ShowsPart lead (label, v) lead (label ++ [':'])
  | inside {lead behind : String} {label text : List Char} {v : Value} :
      isInline (.text lead) v = .ok false → Shows (lead ++ nesting) v behind text →
      ShowsPart lead (label, v) behind text

end

/-! ### Reports made of lines -/

/-- A report is made of texts behind leads. -/
def IsMadeOf (report : List Char) (shown : String → List Char → Prop) : Prop :=
  ∃ pieces : List (String × List Char),
    report = pieces.flatMap (fun piece => line piece.1.toList piece.2) ∧
    ∀ behind text, (behind, text) ∈ pieces ↔ shown behind text

section Made

variable {report rest : List Char} {shown others : String → List Char → Prop}

theorem isMadeOf_line (lead : String) (text : List Char) :
    IsMadeOf (leadLine (.text lead) text) fun behind other => behind = lead ∧ other = text :=
  ⟨[(lead, text)], by simp [leadLine, Value.toText], by simp⟩

theorem IsMadeOf.append (h : IsMadeOf report shown) (hrest : IsMadeOf rest others) :
    IsMadeOf (report ++ rest) fun behind text => shown behind text ∨ others behind text := by
  obtain ⟨pieces, rfl, hpieces⟩ := h
  obtain ⟨more, rfl, hmore⟩ := hrest
  exact ⟨pieces ++ more, by rw [List.flatMap_append], by simp [hpieces, hmore]⟩

theorem IsMadeOf.congr (h : IsMadeOf report shown)
    (heq : ∀ behind text, shown behind text ↔ others behind text) : IsMadeOf report others := by
  obtain ⟨pieces, hreport, hpieces⟩ := h
  exact ⟨pieces, hreport, fun behind text => (hpieces behind text).trans (heq behind text)⟩

/-- Reports one after the other are made of what each of them is made of. -/
theorem isMadeOf_flatten {α : Type} {parts : List α} {reports : List (List Char)}
    {shownOf : α → String → List Char → Prop}
    (h : List.Forall₂ (fun part report => IsMadeOf report (shownOf part)) parts reports) :
    IsMadeOf reports.flatten fun behind text => ∃ part ∈ parts, shownOf part behind text := by
  induction h with
  | nil => exact ⟨[], rfl, by simp⟩
  | cons hpart _ ih => exact (hpart.append ih).congr fun behind text => by simp

end Made

/-! ### Parts one after the other -/

section Parts

variable {lead v : Value} {report : List Char}

/-- The lines of a part under its label. -/
def partLines (lead : Value) (part : List Char × Value) : Except Error (List Char) := do
  if ← isInline lead part.2 then
    (fun text => leadLine lead (part.1 ++ ':' :: ' ' :: text)) <$> formatChars part.2
  else
    (fun lines => leadLine lead (part.1 ++ [':']) ++ lines) <$>
      valueLines (← nested lead) part.2

/-- The lines of a part come in front of those of the rest. -/
theorem partLines_bind (lead : Value) (label : List Char) (v : Value)
    (others : Except Error (List Char)) :
    (do
      let first ←
        if ← isInline lead v then
          (fun text => leadLine lead (label ++ ':' :: ' ' :: text)) <$> formatChars v
        else
          (fun lines => leadLine lead (label ++ [':']) ++ lines) <$>
            valueLines (← nested lead) v
      let rest ← others
      return first ++ rest) =
    (partLines lead (label, v)).bind fun first => others.bind fun rest => .ok (first ++ rest) := by
  rw [partLines]
  cases isInline lead v with
  | error fault => rfl
  | ok inline =>
    cases inline with
    | true => cases formatChars v <;> rfl
    | false =>
      cases nested lead with
      | error fault => rfl
      | ok below => cases valueLines below v <;> rfl

theorem flatten_mapM_cons {α : Type} (f : α → Except Error (List Char)) (x : α) (xs : List α) :
    List.flatten <$> (x :: xs).mapM f = (f x).bind fun first =>
      (List.flatten <$> xs.mapM f).bind fun rest => .ok (first ++ rest) := by
  rw [List.mapM_cons]
  cases f x with
  | error fault => rfl
  | ok first =>
    show List.flatten <$> ((xs.mapM f).bind fun rest => .ok (first :: rest)) = _
    cases xs.mapM f <;> rfl

/-- The lines of the members of a map are those of its parts. -/
theorem memberLines_eq (lead : Value) (members : List (Key × Value)) :
    memberLines lead members =
      List.flatten <$> (Value.map members).labelled.mapM (partLines lead) := by
  induction members with
  | nil => rfl
  | cons member members ih =>
    obtain ⟨key, v⟩ := member
    rw [Value.labelled, List.map_cons, flatten_mapM_cons, ← Value.labelled, ← ih, memberLines]
    exact partLines_bind lead key.label v _

theorem elementLines_eq (lead : Value) (position : Nat) (items : List Value) :
    elementLines lead position items = List.flatten <$>
      ((items.zipIdx position).map fun (v, index) => (indexStep index, v)).mapM
        (partLines lead) := by
  induction items generalizing position with
  | nil => rfl
  | cons v items ih =>
    rw [List.zipIdx_cons, List.map_cons, flatten_mapM_cons, ← ih, elementLines]
    exact partLines_bind lead (indexStep position) v _

/-- Refuses maps whose keys have no order. -/
def Value.checkLabels : Value → Except Error Unit
  | .map members => checkKeys members
  | _ => .ok ()

theorem valueLines_of_inline (h : isInline lead v = .ok true) :
    valueLines lead v = leadLine lead <$> formatChars v := by
  cases v with
  | list items =>
    rw [valueLines, h]
    rfl
  | map members =>
    cases members with
    | nil => rfl
    | cons member members => cases h
  | _ => rfl

theorem valueLines_of_opened (h : isInline lead v = .ok false) :
    valueLines lead v =
      v.checkLabels.bind fun _ => List.flatten <$> v.labelled.mapM (partLines lead) := by
  cases v with
  | list items =>
    rw [valueLines, h]
    exact elementLines_eq lead 0 items
  | map members =>
    cases members with
    | nil => cases h
    | cons member members =>
      rw [valueLines, memberLines_eq]
      rfl
  | _ => cases h

theorem exists_isInline (h : valueLines lead v = .ok report) :
    ∃ inline, isInline lead v = .ok inline := by
  cases v with
  | list items =>
    cases hinline : isInline lead (.list items) with
    | ok inline => exact ⟨inline, rfl⟩
    | error fault =>
      rw [valueLines, hinline] at h
      cases h
  | _ => exact ⟨_, rfl⟩

/-- A value is shown on one line, or its parts one after the other. -/
theorem valueLines_cases (h : valueLines lead v = .ok report) :
    (isInline lead v = .ok true ∧
      ∃ text, formatChars v = .ok text ∧ report = leadLine lead text) ∨
    isInline lead v = .ok false ∧ ∃ reports,
      List.Forall₂ (fun part lines => partLines lead part = .ok lines) v.labelled reports ∧
      report = reports.flatten := by
  obtain ⟨inline, hinline⟩ := exists_isInline h
  cases inline with
  | true =>
    rw [valueLines_of_inline hinline] at h
    exact .inl ⟨hinline, exists_of_map_eq_ok h⟩
  | false =>
    rw [valueLines_of_opened hinline] at h
    obtain ⟨_, -, h⟩ := exists_of_bind_eq_ok h
    obtain ⟨reports, hreports, rfl⟩ := exists_of_map_eq_ok h
    exact .inr ⟨hinline, reports, mapM_eq_ok_iff.mp hreports, rfl⟩

/-- A part is shown on the line of its label, or below it. -/
theorem partLines_cases {lead : String} {part : List Char × Value}
    (h : partLines (.text lead) part = .ok report) :
    (isInline (.text lead) part.2 = .ok true ∧ ∃ text, formatChars part.2 = .ok text ∧
      report = leadLine (.text lead) (part.1 ++ ':' :: ' ' :: text)) ∨
    isInline (.text lead) part.2 = .ok false ∧ ∃ lines,
      valueLines (.text (lead ++ nesting)) part.2 = .ok lines ∧
      report = leadLine (.text lead) (part.1 ++ [':']) ++ lines := by
  obtain ⟨inline, hinline, h⟩ := exists_of_bind_eq_ok h
  cases inline with
  | true => exact .inl ⟨hinline, exists_of_map_eq_ok h⟩
  | false => exact .inr ⟨hinline, exists_of_map_eq_ok h⟩

end Parts

/-! ### What reports are made of -/

/-- Induction on the parts of a value. -/
@[elab_as_elim]
theorem Value.labelledInduction {motive : Value → Prop}
    (step : ∀ v, (∀ part ∈ v.labelled, motive part.2) → motive v) (v : Value) : motive v := by
  induction v using containerInduction with
  | leaf v hv =>
    refine step v fun part hpart => ?_
    cases v <;> simp_all [labelled, isContainer]
  | list items ih =>
    refine step _ fun part hpart => ?_
    obtain ⟨⟨v, position⟩, hv, rfl⟩ := List.mem_map.mp hpart
    exact ih v (List.fst_mem_of_mem_zipIdx hv)
  | map members ih =>
    refine step _ fun part hpart => ?_
    obtain ⟨⟨key, v⟩, hv, rfl⟩ := List.mem_map.mp hpart
    exact ih key v hv

/-- What holds everywhere in a value holds everywhere in its parts. -/
theorem Value.IsTreeOf.of_mem_labelled {test : Value → Bool} {v : Value}
    {part : List Char × Value} (h : IsTreeOf test v) (hpart : part ∈ v.labelled) :
    IsTreeOf test part.2 := by
  cases v with
  | list items =>
    obtain ⟨⟨v, position⟩, hv, rfl⟩ := List.mem_map.mp hpart
    exact h.item (List.fst_mem_of_mem_zipIdx hv)
  | map members =>
    obtain ⟨⟨key, v⟩, hv, rfl⟩ := List.mem_map.mp hpart
    exact h.member hv
  | _ => cases hpart

section Lines

variable {lead behind : String} {v : Value} {part : List Char × Value} {report text : List Char}

theorem isMadeOf_partLines
    (hinside : ∀ {lead : String} {report : List Char}, valueLines (.text lead) part.2 = .ok report →
      IsMadeOf report (Shows lead part.2))
    (h : partLines (.text lead) part = .ok report) : IsMadeOf report (ShowsPart lead part) := by
  obtain ⟨hinline, text, htext, rfl⟩ | ⟨hopened, lines, hlines, rfl⟩ := partLines_cases h
  · refine (isMadeOf_line lead _).congr fun behind other => ⟨?_, fun hshown => ?_⟩
    · rintro ⟨rfl, rfl⟩
      exact .beside hinline htext
    · cases hshown with
      | beside _ hother => exact ⟨rfl, by rw [Except.ok.inj (htext.symm.trans hother)]⟩
      | heading hopened => cases hinline.symm.trans hopened
      | inside hopened _ => cases hinline.symm.trans hopened
  · refine ((isMadeOf_line lead _).append (hinside hlines)).congr
      fun behind other => ⟨?_, fun hshown => ?_⟩
    · rintro (⟨rfl, rfl⟩ | hshown)
      · exact .heading hopened
      · exact .inside hopened hshown
    · cases hshown with
      | beside hinline _ => cases hinline.symm.trans hopened
      | heading _ => exact .inl ⟨rfl, rfl⟩
      | inside _ hshown => exact .inr hshown

/-- The lines of a value are made of what is shown of it. -/
theorem isMadeOf_valueLines (h : valueLines (.text lead) v = .ok report) :
    IsMadeOf report (Shows lead v) := by
  induction v using Value.labelledInduction generalizing lead report with
  | step v ih =>
    obtain ⟨hinline, text, htext, rfl⟩ | ⟨hopened, reports, hreports, rfl⟩ := valueLines_cases h
    · refine (isMadeOf_line lead text).congr fun behind other => ⟨?_, fun hshown => ?_⟩
      · rintro ⟨rfl, rfl⟩
        exact .alone hinline htext
      · cases hshown with
        | alone _ hother => exact ⟨rfl, Except.ok.inj (hother.symm.trans htext)⟩
        | part hopened _ _ => cases hinline.symm.trans hopened
    · have hparts : List.Forall₂ (fun part lines => IsMadeOf lines (ShowsPart lead part))
          v.labelled reports :=
        ((List.forall₂_and_left _ _).mpr ⟨ih, hreports⟩).imp
          fun _ _ hpart => isMadeOf_partLines hpart.1 hpart.2
      refine (isMadeOf_flatten hparts).congr fun behind other => ⟨?_, fun hshown => ?_⟩
      · rintro ⟨part, hpart, hshown⟩
        exact .part hopened hpart hshown
      · cases hshown with
        | alone hinline _ => cases hinline.symm.trans hopened
        | part _ hpart hshown => exact ⟨_, hpart, hshown⟩

theorem append_nesting (lead : String) (blanks : Nat) :
    (lead ++ nesting).toList ++ List.replicate blanks ' ' =
      lead.toList ++ List.replicate (blanks + 2) ' ' := by
  rw [String.toList_append, List.append_assoc]
  rfl

mutual

/-- What is shown stands behind the lead and the blanks of its depth. -/
theorem Shows.exists_blanks {lead behind : String} {v : Value} {text : List Char} :
    Shows lead v behind text → ∃ blanks, behind.toList = lead.toList ++ List.replicate blanks ' '
  | .alone _ _ => ⟨0, by simp⟩
  | .part _ _ hshown => hshown.exists_blanks

theorem ShowsPart.exists_blanks {lead behind : String} {part : List Char × Value}
    {text : List Char} :
    ShowsPart lead part behind text →
      ∃ blanks, behind.toList = lead.toList ++ List.replicate blanks ' '
  | .beside _ _ => ⟨0, by simp⟩
  | .heading _ => ⟨0, by simp⟩
  | .inside _ hshown => by
    obtain ⟨blanks, hblanks⟩ := hshown.exists_blanks
    exact ⟨blanks + 2, hblanks.trans (append_nesting _ blanks)⟩

end

/-- An empty list stands on one line if there is room for its brackets. -/
theorem isInline_nil (lead : String) :
    isInline (.text lead) (.list []) = .ok (decide ((2 : Int) < listWidth - lead.length)) := rfl

theorem labelled_eq_nil (hopened : isInline (.text lead) v = .ok false) (h : v.labelled = []) :
    v = .list [] := by
  cases v with
  | list items => simpa [Value.labelled] using h
  | map members =>
    cases members with
    | nil => cases hopened
    | cons member members => cases h
  | _ => cases hopened

/-- Something is shown of every value but of an empty list behind a long lead. -/
theorem exists_shows_iff (h : valueLines (.text lead) v = .ok report) :
    (∃ behind text, Shows lead v behind text) ↔ (v = .list [] → lead.length + 2 < listWidth) := by
  constructor
  · rintro ⟨behind, text, hshown⟩ rfl
    cases hshown with
    | alone hinline _ =>
      rw [isInline_nil, Except.ok.injEq, decide_eq_true_eq] at hinline
      omega
    | part _ hpart _ => cases hpart
  · intro hroom
    obtain ⟨hinline, text, htext, -⟩ | ⟨hopened, reports, hreports, -⟩ := valueLines_cases h
    · exact ⟨lead, text, .alone hinline htext⟩
    · cases hlabelled : v.labelled with
      | nil =>
        obtain rfl := labelled_eq_nil hopened hlabelled
        have hwide := hroom rfl
        rw [isInline_nil, Except.ok.injEq, decide_eq_false_iff_not] at hopened
        omega
      | cons part parts =>
        have hpart : part ∈ v.labelled := hlabelled ▸ List.mem_cons_self
        rw [hlabelled] at hreports
        cases hreports with
        | cons hlines _ =>
          obtain ⟨hinline, text, htext, -⟩ | ⟨hbelow, -⟩ := partLines_cases hlines
          · exact ⟨lead, _, .part hopened hpart (.beside hinline htext)⟩
          · exact ⟨lead, _, .part hopened hpart (.heading hbelow)⟩

end Lines

/-! ### Values that have a report -/

section Reports

variable {lead behind : String} {v : Value} {part : List Char × Value} {text : List Char}

/-- A value that can be written is shown wrapped, unless it is a text of one line. -/
theorem formatChars_eq (h : checkWritable v = .ok ()) : formatChars v = v.wrapped ∨
    ∃ s : String, v = .text s ∧ '\n' ∉ s.toList ∧ formatChars v = .ok s.toList := by
  unfold formatChars
  rw [h]
  cases v with
  | text s =>
    by_cases hfeed : s.toList.contains '\n' = true
    · exact .inl (if_pos hfeed)
    · exact .inr ⟨s, rfl, by simpa using hfeed, if_neg hfeed⟩
  | _ => exact .inl rfl

theorem checkWritable_eq_ok (h : v.IsShowable) : checkWritable v = .ok () := by
  rw [checkWritable, v.hasLongInteger_eq_false h.named h.held]
  rfl

theorem exists_formatChars (h : v.IsShowable) : ∃ text, formatChars v = .ok text := by
  obtain heq | ⟨s, -, -, heq⟩ := formatChars_eq (checkWritable_eq_ok h)
  · obtain ⟨text, htext⟩ := Value.exists_wrapped h
    exact ⟨text, heq.trans htext⟩
  · exact ⟨s.toList, heq⟩

theorem exists_isInline_of_isShowable (lead : String) (h : v.IsShowable) :
    ∃ inline, isInline (.text lead) v = .ok inline := by
  cases v with
  | list items =>
    obtain ⟨text, htext⟩ := Value.exists_wrapped h
    rw [isInline, checkWritable_eq_ok h, htext]
    exact ⟨_, rfl⟩
  | _ => exact ⟨_, rfl⟩

theorem checkLabels_eq_ok (h : v.IsShowable) : v.checkLabels = .ok () := by
  cases v with
  | map members =>
    exact Value.checkKeys_eq_ok fun _ hkey => Value.exists_name_of_hasNames h.hasNames hkey
  | _ => rfl

theorem exists_partLines (h : part.2.IsShowable)
    (hinside : ∀ lead : String, ∃ lines, valueLines (.text lead) part.2 = .ok lines) :
    ∃ lines, partLines (.text lead) part = .ok lines := by
  obtain ⟨inline, hinline⟩ := exists_isInline_of_isShowable lead h
  obtain ⟨text, htext⟩ := exists_formatChars h
  obtain ⟨lines, hlines⟩ := hinside (lead ++ nesting)
  rw [partLines, hinline]
  cases inline with
  | true =>
    rw [htext]
    exact ⟨_, rfl⟩
  | false =>
    show ∃ shown, (_ <$> valueLines (.text (lead ++ nesting)) part.2) = _
    rw [hlines]
    exact ⟨_, rfl⟩

theorem exists_valueLines (lead : String) (h : v.IsShowable) :
    ∃ report, valueLines (.text lead) v = .ok report := by
  induction v using Value.labelledInduction generalizing lead with
  | step v ih =>
    obtain ⟨inline, hinline⟩ := exists_isInline_of_isShowable lead h
    cases inline with
    | true =>
      obtain ⟨text, htext⟩ := exists_formatChars h
      rw [valueLines_of_inline hinline, htext]
      exact ⟨_, rfl⟩
    | false =>
      have hparts : ∀ part ∈ v.labelled, ∃ lines, partLines (.text lead) part = .ok lines := by
        intro part hpart
        have hshowable := h.of_mem_labelled hpart
        exact exists_partLines hshowable fun inner => ih part hpart inner hshowable
      obtain ⟨reports, hreports⟩ := exists_mapM_eq_ok hparts
      rw [valueLines_of_opened hinline, checkLabels_eq_ok h, hreports]
      exact ⟨_, rfl⟩

/-- A value that can be shown has a report. -/
theorem exists_reportChars (lead : String) (h : v.IsShowable) :
    ∃ report, reportChars (.text lead) v = .ok report :=
  exists_valueLines lead (h.sortMembers (fun _ => rfl) fun _ _ _ _ => rfl)

/-! ### How what is shown goes on -/

/-- A value goes on behind a blank if it does not stand on one line. -/
theorem isHanging_formatChars (h : formatChars v = .ok text) : IsHanging text := by
  obtain ⟨⟨⟩, hwritable, -⟩ := exists_of_bind_eq_ok h
  obtain heq | ⟨s, -, hfeed, heq⟩ := formatChars_eq hwritable
  · exact v.sortMembers.isHanging_wrapAt (.inl rfl) (heq.symm.trans h)
  · exact Except.ok.inj (heq.symm.trans h) ▸ isHanging_of_notMem hfeed

/-- A value stands on one line if its inspected form fits on one. -/
theorem lineFeed_notMem_formatChars (hfits : v.sortMembers.fitsInto 0 0 = true)
    (h : formatChars v = .ok text) : '\n' ∉ text := by
  obtain ⟨⟨⟩, hwritable, -⟩ := exists_of_bind_eq_ok h
  obtain heq | ⟨s, -, hfeed, heq⟩ := formatChars_eq hwritable
  · rw [heq, Value.wrapped, Value.wrapAt_of_fitsInto true hfits, Except.ok.injEq] at h
    exact h ▸ v.sortMembers.lineFeed_notMem_inspectChars
  · exact Except.ok.inj (heq.symm.trans h) ▸ hfeed

end Reports

namespace Value

/-- Whether no name in a map has a line feed. -/
def hasSingleLineNames : Value → Bool
  | .map members => (Members.keys members).all fun key => !key.label.contains '\n'
  | _ => true

theorem lineFeed_notMem_of_mem_labelled {v : Value} {part : List Char × Value}
    (h : v.hasSingleLineNames = true) (hpart : part ∈ v.labelled) : '\n' ∉ part.1 := by
  cases v with
  | list items =>
    obtain ⟨⟨v, position⟩, -, rfl⟩ := List.mem_map.mp hpart
    simp [indexStep]
  | map members =>
    obtain ⟨⟨key, v⟩, hv, rfl⟩ := List.mem_map.mp hpart
    have hkey := List.all_eq_true.mp h key (Members.mem_keys_of_mem hv)
    simpa using hkey
  | _ => cases hpart

end Value

mutual

/-- If no name has a line feed, all that is shown goes on behind a blank. -/
theorem Shows.isHanging {lead behind : String} {v : Value} {text : List Char} :
    Shows lead v behind text → v.IsTreeOf Value.hasSingleLineNames → IsHanging text
  | .alone _ htext => fun _ => isHanging_formatChars htext
  | .part _ hpart hshown => fun hnames =>
    hshown.isHanging (Value.lineFeed_notMem_of_mem_labelled hnames.root hpart)
      (hnames.of_mem_labelled hpart)

theorem ShowsPart.isHanging {lead behind : String} {part : List Char × Value}
    {text : List Char} :
    ShowsPart lead part behind text → '\n' ∉ part.1 →
      part.2.IsTreeOf Value.hasSingleLineNames → IsHanging text
  | .beside _ htext => fun hlabel _ =>
    (isHanging_of_notMem hlabel).append
      (((isHanging_formatChars htext).cons (by decide)).cons (by decide))
  | .heading _ => fun hlabel _ => isHanging_of_notMem (by simpa using hlabel)
  | .inside _ hshown => fun _ hnames => hshown.isHanging hnames

end

end ItemDelta
