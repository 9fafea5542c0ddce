import ItemDelta.Proofs.Report.Shown
import ItemDelta.Report.Diff

/-!
# Leads on the lines of a report

A report starts each line that it begins with its lead, however deep the value is nested that the
line is about. It does not begin every line, though. A name with a line feed is shown as it is, and
a value that does not fit on one line is shown on several, so that such a text goes on without the
lead. An empty list behind a long lead, at last, is shown on no line at all.

## Main definitions

* `KeepsLead` — a report of complete lines that all start with a lead.
* `StaysLed` — all that is shown of a value keeps a lead, and something is shown.
* `IsNodeReport` — how a node of a diff is reported.

## Main results

* `keepsLead_iff_staysLed` — a report keeps its lead if and only if all that is shown does.
* `staysLed_iff_of_head?` — behind a lead that starts with no blank, as markers do, this takes that
  everything shown stands on one line.
* `reports_keep_leads_iff` — the reports of values, and of the values that go and come in diffs.
-/

namespace ItemDelta

/-- A report of complete lines, which all start with a lead. -/
structure KeepsLead (lead report : List Char) : Prop where
  complete : report.getLast? = some '\n'
  led : ∀ l ∈ (report.splitOn '\n').dropLast, lead <+: l

/-! ### Lines that start with their lead -/

section Keeps

variable {lead report : List Char} {shown : String → List Char → Prop}

theorem getLast?_flatMap_line (pieces : List (String × List Char)) (h : pieces ≠ []) :
    (pieces.flatMap fun piece => line piece.1.toList piece.2).getLast? = some '\n' := by
  obtain ⟨front, ⟨behind, text⟩, rfl⟩ := (List.eq_nil_or_concat pieces).resolve_left h
  simp [line]

/-- The lines of a report, one piece after the other. -/
theorem dropLast_splitOn_flatMap_line (pieces : List (String × List Char)) :
    ((pieces.flatMap fun piece => line piece.1.toList piece.2).splitOn '\n').dropLast =
      pieces.flatMap fun piece => (piece.1.toList ++ piece.2).splitOn '\n' := by
  induction pieces with
  | nil => rw [List.flatMap_nil, List.splitOn_nil]; rfl
  | cons piece pieces ih =>
    rw [List.flatMap_cons, List.flatMap_cons, line, List.append_assoc, List.singleton_append,
      List.splitOn_append_cons_self, List.dropLast_append_of_ne_nil (List.splitOn_ne_nil _ _), ih]

/-- A report that is made of texts behind a lead and some blanks keeps this lead if and only if
    there is such a text and all lines of such texts start with the lead. -/
theorem IsMadeOf.keepsLead_iff (h : IsMadeOf report shown) (hlead : '\n' ∉ lead)
    (hbehind : ∀ behind text, shown behind text →
      ∃ blanks, behind.toList = lead ++ List.replicate blanks ' ') :
    KeepsLead lead report ↔ (∃ behind text, shown behind text) ∧
      ∀ behind text, shown behind text → ∀ l ∈ continuations text, lead <+: l := by
  obtain ⟨pieces, rfl, hpieces⟩ := h
  have hlines (behind : String) (text : List Char) (hshown : shown behind text) :
      ∃ first, lead <+: first ∧
        (behind.toList ++ text).splitOn '\n' = first :: continuations text := by
    obtain ⟨blanks, hblanks⟩ := hbehind behind text hshown
    have hfeed : '\n' ∉ behind.toList := by
      rw [hblanks, List.mem_append, not_or]
      exact ⟨hlead, fun hmem => absurd (List.eq_of_mem_replicate hmem) (by decide)⟩
    obtain ⟨first, hfirst⟩ := splitOn_append_of_notMem hfeed text
    refine ⟨behind.toList ++ first, ?_, hfirst⟩
    rw [hblanks, List.append_assoc]
    exact List.prefix_append _ _
  constructor
  · rintro ⟨hcomplete, hled⟩
    refine ⟨?_, fun behind text hshown l hl => hled l ?_⟩
    · cases pieces with
      | nil => cases hcomplete
      | cons piece pieces => exact ⟨piece.1, piece.2, (hpieces _ _).mp List.mem_cons_self⟩
    · obtain ⟨first, -, hsplit⟩ := hlines behind text hshown
      rw [dropLast_splitOn_flatMap_line, List.mem_flatMap]
      refine ⟨(behind, text), (hpieces _ _).mpr hshown, ?_⟩
      rw [hsplit]
      exact List.mem_cons_of_mem _ hl
  · rintro ⟨⟨behind, text, hshown⟩, hled⟩
    refine ⟨getLast?_flatMap_line pieces (List.ne_nil_of_mem ((hpieces _ _).mpr hshown)), ?_⟩
    intro l hl
    rw [dropLast_splitOn_flatMap_line, List.mem_flatMap] at hl
    obtain ⟨⟨behind, text⟩, hpiece, hl⟩ := hl
    have hshown := (hpieces behind text).mp hpiece
    obtain ⟨first, hfirst, hsplit⟩ := hlines behind text hshown
    rw [hsplit] at hl
    rcases List.mem_cons.mp hl with rfl | hl
    · exact hfirst
    · exact hled behind text hshown l hl

end Keeps

/-! ### Reports on values -/

/-- Something is shown of a value, and all lines of it start with a lead. -/
structure StaysLed (lead : String) (v : Value) : Prop where
  shown : v = .list [] → lead.length + 2 < listWidth
  led : ∀ behind text, Shows lead v.sortMembers behind text →
    ∀ l ∈ continuations text, lead.toList <+: l

section Values

variable {lead : String} {v : Value} {report : List Char}

theorem sortMembers_eq_nil_iff : v.sortMembers = .list [] ↔ v = .list [] := by
  cases v with
  | list items => simp [Value.sortMembers, Value.sortItems_eq_map]
  | _ => simp [Value.sortMembers]

/-- The report on a value keeps a lead if and only if all that is shown of the value does. -/
theorem keepsLead_iff_staysLed (hlead : '\n' ∉ lead.toList)
    (h : reportChars (.text lead) v = .ok report) :
    KeepsLead lead.toList report ↔ StaysLed lead v := by
  rw [(isMadeOf_valueLines h).keepsLead_iff hlead fun _ _ hshown => hshown.exists_blanks,
    exists_shows_iff h, sortMembers_eq_nil_iff]
  exact ⟨fun hboth => ⟨hboth.1, hboth.2⟩, fun hled => ⟨hled.shown, hled.led⟩⟩

/-- Behind a lead that starts with no blank, what is shown has to stand on single lines. -/
theorem staysLed_iff_of_head? {c : Char} (hhead : lead.toList.head? = some c) (hc : c ≠ ' ')
    (hnames : v.IsTreeOf Value.hasSingleLineNames) :
    StaysLed lead v ↔ (v = .list [] → lead.length + 2 < listWidth) ∧
      ∀ behind text, Shows lead v.sortMembers behind text → '\n' ∉ text := by
  have hsorted : v.sortMembers.IsTreeOf Value.hasSingleLineNames := by
    refine hnames.sortMembers (fun _ => rfl) fun members others hkeys hmembers => ?_
    rw [Value.hasSingleLineNames, List.all_eq_true] at hmembers ⊢
    exact fun key hkey => hmembers key (hkeys.mem_iff.mpr hkey)
  constructor
  · rintro ⟨hshown, hled⟩
    refine ⟨hshown, fun behind text htext => continuations_eq_nil_iff.mp ?_⟩
    rw [List.eq_nil_iff_forall_not_mem]
    intro l hl
    have hblank := (htext.isHanging hsorted).head?_of_mem hl
    obtain ⟨rest, rfl⟩ := hled behind text htext l hl
    rw [List.head?_append, hhead, Option.some_or, Option.some.injEq] at hblank
    exact hc hblank
  · rintro ⟨hshown, hsingle⟩
    refine ⟨hshown, fun behind text htext l hl => ?_⟩
    rw [continuations_eq_nil_iff.mpr (hsingle behind text htext)] at hl
    cases hl

end Values

/-! ### Reports on diffs -/

/-- The value that a node shows behind the marker of what goes. -/
def going? (base : Value) (change : Change) (node : Node) : Except Error (Option Value) :=
  match change with
  | .added => .ok none
  | .deleted => .ok (some node.value)
  | .replaced => replacedValue? base .replaced node

/-- The value that a node shows behind the marker of what comes. -/
def coming? (change : Change) (node : Node) : Option Value :=
  match change with
  | .deleted => none
  | _ => some node.value

/-- The lines that show a value behind a marker, if there is one. They keep the marker if and only
    if all that is shown of the value does. -/
def IsMarked (marker : List Char) (value? : Option Value) (lines : List Char) : Prop :=
  match value? with
  | none => lines = []
  | some v => reportChars (.text (String.ofList marker)) v = .ok lines ∧
    (KeepsLead marker lines ↔ StaysLed (String.ofList marker) v)

/-- A node is shown as a heading, what goes, what comes, and an empty line. -/
def IsNodeReport (markers : Markers) (base : Value) (change : Change) (node : Node)
    (text : List Char) : Prop :=
  ∃ title going removed added, going? base change node = .ok going ∧
    text = heading markers title node.path ++ removed ++ added ++ '\n' :: markers.reset ∧
    IsMarked markers.removed going removed ∧ IsMarked markers.added (coming? change node) added

section Diffs

variable {markers : Markers} {base v : Value} {change : Change} {node : Node}
  {marker text report : List Char}

theorem isMarked_some (hmarker : '\n' ∉ marker)
    (h : reportChars (.text (String.ofList marker)) v = .ok report) :
    IsMarked marker (some v) report := by
  refine ⟨h, ?_⟩
  have hiff := keepsLead_iff_staysLed (by rwa [String.toList_ofList]) h
  rwa [String.toList_ofList] at hiff

theorem isNodeReport_of_nodeChars (hremoved : '\n' ∉ markers.removed)
    (hadded : '\n' ∉ markers.added) (h : nodeChars (.ok markers) base change node = .ok text) :
    IsNodeReport markers base change node text := by
  obtain ⟨before, hbefore, h⟩ := exists_of_bind_eq_ok h
  obtain ⟨_, hmarkers, h⟩ := exists_of_bind_eq_ok h
  cases hmarkers
  cases change with
  | added =>
    obtain ⟨added, hreport, h⟩ := exists_of_bind_eq_ok h
    refine ⟨"added".toList, none, [], added, rfl, ?_, rfl, isMarked_some hadded hreport⟩
    rw [List.append_nil]
    exact (Except.ok.inj h).symm
  | deleted =>
    obtain ⟨removed, hreport, h⟩ := exists_of_bind_eq_ok h
    refine ⟨"deleted".toList, some node.value, removed, [], rfl, ?_,
      isMarked_some hremoved hreport, rfl⟩
    rw [List.append_nil]
    exact (Except.ok.inj h).symm
  | replaced =>
    cases before with
    | none =>
      obtain ⟨_, hnothing, h⟩ := exists_of_bind_eq_ok h
      cases hnothing
      obtain ⟨added, hreport, h⟩ := exists_of_bind_eq_ok h
      refine ⟨replacement none node.value, none, [], added, hbefore, ?_, rfl,
        isMarked_some hadded hreport⟩
      exact (Except.ok.inj h).symm
    | some value =>
      obtain ⟨removed, hold, h⟩ := exists_of_bind_eq_ok h
      obtain ⟨added, hnew, h⟩ := exists_of_bind_eq_ok h
      refine ⟨replacement (some value) node.value, some value, removed, added, hbefore, ?_,
        isMarked_some hremoved hold, isMarked_some hadded hnew⟩
      exact (Except.ok.inj h).symm

/-- The markers are those with color if color is asked for. -/
theorem ofSetting_bool (colored : Bool) :
    Markers.ofSetting (.bool colored) = .ok (if colored then .colored else .plain) := by
  have hagrees : ∀ b c : Bool, (Value.bool b).agrees (.bool c) = (b == c) := by decide +kernel
  cases colored <;> simp [Markers.ofSetting, hagrees]

end Diffs

/-- A value that can be shown has a report behind every lead without a line feed, and the report
    keeps the lead if and only if all that is shown of the value does. In a report on a diff, in
    color or not, this is how the values that go and come keep their markers. -/
theorem reports_keep_leads_iff (lead : String) (v : Value) (hlead : '\n' ∉ lead.toList)
    (hshowable : v.IsShowable) (colored : Bool) (base : Value) (d : Diff) :
    (∃ report, reportChars (.text lead) v = .ok report ∧
      (KeepsLead lead.toList report ↔ StaysLed lead v)) ∧
    ∀ report, diffChars (Markers.ofSetting (.bool colored)) base d = .ok report →
      ∃ texts, report = texts.flatten ∧ List.Forall₂
        (fun entry text => IsNodeReport (if colored then .colored else .plain) base entry.1
          entry.2 text) (changes d) texts := by
  constructor
  · obtain ⟨report, hreport⟩ := exists_reportChars lead hshowable
    exact ⟨report, hreport, keepsLead_iff_staysLed hlead hreport⟩
  · intro report h
    obtain ⟨texts, htexts, h⟩ := exists_of_bind_eq_ok h
    refine ⟨texts, (Except.ok.inj h).symm, ?_⟩
    rw [ofSetting_bool] at htexts
    refine (mapM_eq_ok_iff.mp htexts).imp fun _ _ hnode => isNodeReport_of_nodeChars ?_ ?_ hnode
    all_goals cases colored <;> decide

/-- A text of two long lines. -/
def twoLines : Value :=
  .text (String.ofList (List.replicate 40 'a' ++ '\n' :: List.replicate 40 'b'))

/-- The second line of a long text does not start with the marker of what comes. -/
theorem not_staysLed_twoLines : ¬StaysLed "+  " twoLines := by
  intro hled
  have hformat : formatChars twoLines = .ok ("('".toList ++ List.replicate 40 'a' ++
      "\\n'\n '".toList ++ List.replicate 40 'b' ++ "')".toList) :=
    eq_ok_of_toOption (by decide +kernel)
  exact absurd (hled.led "+  " _ (.alone rfl hformat)) (by decide +kernel)

/-- Nor does it in a report on a diff that adds the text. -/
theorem not_keepsLead_twoLines :
    (∃ report, reportChars (.text "+  ") twoLines = .ok report ∧
      ¬KeepsLead "+  ".toList report) ∧
    ∃ title added, diffChars (Markers.ofSetting (.bool false)) (.map [])
        ⟨[⟨"$.a", twoLines⟩], [], []⟩ =
          .ok (heading .plain title "$.a" ++ added ++ ['\n']) ∧
      ¬KeepsLead Markers.plain.added added := by
  obtain ⟨⟨report, hreport, hiff⟩, hdiff⟩ := reports_keep_leads_iff "+  " twoLines (by decide)
    ⟨rfl, rfl⟩ false (.map []) ⟨[⟨"$.a", twoLines⟩], [], []⟩
  refine ⟨⟨report, hreport, fun hkeeps => not_staysLed_twoLines (hiff.mp hkeeps)⟩, ?_⟩
  have hsome : (diffChars (Markers.ofSetting (.bool false)) (.map [])
      ⟨[⟨"$.a", twoLines⟩], [], []⟩).toOption.isSome = true := by decide +kernel
  obtain ⟨report, hreport⟩ := Option.isSome_iff_exists.mp hsome
  have hreport := eq_ok_of_toOption hreport
  obtain ⟨texts, rfl, hnodes⟩ := hdiff report hreport
  rw [show changes ⟨[⟨"$.a", twoLines⟩], [], []⟩ = [(.added, ⟨"$.a", twoLines⟩)] by
    simp [changes]] at hnodes
  cases hnodes with
  | cons hnode hnone =>
    cases hnone
    obtain ⟨title, going, removed, added, hgoing, rfl, hremoved, -, hiff⟩ := hnode
    cases hgoing
    refine ⟨title, added, ?_, fun hkeeps => not_staysLed_twoLines (hiff.mp hkeeps)⟩
    rw [hreport, show removed = [] from hremoved]
    simp [Markers.plain]

end ItemDelta
