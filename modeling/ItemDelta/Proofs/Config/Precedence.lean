import ItemDelta.Config.Sections
import ItemDelta.Proofs.Config.Merge
import ItemDelta.Proofs.Json.Names

/-!
# Which setting wins

The options of a program are put together from general to special, so the value of an option is
found the other way round: the most special section that has something to say about it decides. In
a section the file in the working directory comes first, then the one in the home directory, and
then the default.

## Main definitions

* `IsConfigFile` — what a configuration file states, section by section.
* `fileSetting?` — what both files say about an option in one section.
* `Section.decision?`, `Program.decided?` — what decides the value of an option.

## Main results

* `exists_mergeMembers_of_isPlain`, `exists_mergeMembers_of_isSectioned` — merges of one section,
  and of several.
* `exists_addSection` — what one more section does to each option.
* `exists_buildConfig` — the options of a program are the decided ones.
-/

namespace ItemDelta

/-! ### Sections of settings -/

/-- Settings of which none is a map. -/
structure Members.IsPlain (options : Members) : Prop where
  nodup : options.keys.Nodup
  kind_ne : ∀ key v, options.get? key = some v → v.kind ≠ .map

/-- Sections of settings. -/
structure Members.IsSectioned (sections : Members) : Prop where
  nodup : sections.keys.Nodup
  isPlain : ∀ part v, sections.get? part = some v →
    ∃ options : Members, v = .map options ∧ options.IsPlain

/-- The text of a configuration file, if there is one, and the sections that it states. -/
inductive IsConfigFile : Option String → Members → Prop where
  /-- A file that is missing states nothing. -/
  | missing : IsConfigFile none []
  /-- Each section is a map with no further maps in it. The version of the format is left out. -/
  | given {text : String} {sections : Members} :
    readJson .binary text = .ok (.map sections) → sections.get? (.name "version") = none →
    (∀ part v, sections.get? part = some v → ∃ options : Members, v = .map options ∧
      ∀ name w, options.get? name = some w → w.kind ≠ .map) →
    IsConfigFile (some text) sections

/-- What is left of a present setting when another one, if there is one, is merged into it. -/
def settled (keepNull : Bool) (new present : Option Value) : Option Value :=
  match new with
  | some v => v.kept? keepNull
  | none => present

/-! ### The deciding section -/

/-- What the files say about an option in a section. A null in the file in the working directory
    hides what the other one says; it is a setting of its own only if nulls are kept. -/
def fileSetting? (keepNull : Bool) (working home : Members) (part name : String) : Option Value :=
  match (Value.map working).setting? [.name part, .name name] with
  | some v => v.kept? keepNull
  | none => ((Value.map home).setting? [.name part, .name name]).bind (·.kept? keepNull)

/-- What a section says about an option: first the files, then the default. -/
def Section.decision? (keepNull : Bool) (working home : Members) (name : String) (part : Section) :
    Option Value :=
  (fileSetting? keepNull working home part.name name).or (part.defaults.lookup name)

/-- What the most special section says that says something. A default that is null takes the option
    away, unless nulls are kept. -/
def Program.decided? (program : Program) (keepNull : Bool) (working home : Members)
    (name : String) : Option Value :=
  (program.sections.reverse.findSome? (Section.decision? keepNull working home name)).bind
    (·.kept? keepNull)

section Settling

variable {keepNull : Bool} {slot : Option Value} {v : Value} {members present sections : Members}
  {part name : Key}

theorem settled_none (new : Option Value) :
    settled keepNull new none = new.bind (·.kept? keepNull) := by
  cases new <;> rfl

theorem settled_or (new other present : Option Value) :
    settled keepNull (new.or other) present =
      settled keepNull new (settled keepNull other present) := by
  cases new <;> rfl

theorem fileSetting?_eq (keepNull : Bool) (working home : Members) (part name : String) :
    fileSetting? keepNull working home part name =
      settled keepNull ((Value.map working).setting? [.name part, .name name])
        (settled keepNull ((Value.map home).setting? [.name part, .name name]) none) := by
  rw [fileSetting?, settled_none]
  rfl

theorem kind_ne_of_kept? (h : v.kind ≠ .map) {w : Value} (hw : v.kept? keepNull = some w) :
    w.kind ≠ .map := by
  rw [Value.kept?] at hw
  split at hw
  · cases hw
  · exact Option.some.inj hw ▸ h

/-- Plain settings can be merged into any others. -/
theorem exists_mergeMembers_of_isPlain (keepNull : Bool) (hnew : members.IsPlain)
    (hpresent : present.keys.Nodup) :
    ∃ result : Members, mergeMembers keepNull (.map present) members = .ok (.map result) ∧
      result.keys.Nodup ∧
      ∀ key, result.get? key = settled keepNull (members.get? key) (present.get? key) := by
  obtain ⟨merged, hmerged⟩ : ∃ merged, mergeMembers keepNull (.map present) members = .ok merged :=
    exists_mergeMembers hnew.nodup fun key v hget =>
      ⟨_, mergedSlot_of_kind_ne (hnew.kind_ne key v hget)⟩
  obtain ⟨result, rfl, hresult, hother, hsame⟩ :=
    exists_of_mergeMembers hnew.nodup hpresent hmerged
  refine ⟨result, hmerged, hresult, fun key => ?_⟩
  cases hget : members.get? key with
  | none => exact hother key hget
  | some v =>
    have hslot := hsame key v hget
    rw [mergedSlot_of_kind_ne (hnew.kind_ne key v hget)] at hslot
    exact (Except.ok.inj hslot).symm

/-- A section merged into one that may be missing is a section again, or is left out. -/
theorem exists_mergedSlot_of_isPlain (keepNull : Bool) (slot : Option Value)
    (hnew : members.IsPlain)
    (hslot : ∀ v ∈ slot, ∃ options : Members, v = .map options ∧ options.IsPlain) :
    ∃ after, mergedSlot keepNull slot (.map members) = .ok after ∧
      (∀ v ∈ after, ∃ options : Members, v = .map options ∧ options.IsPlain) ∧
      ∀ key, settingBelow after [key] =
        settled keepNull (members.get? key) (settingBelow slot [key]) := by
  obtain ⟨present, hpresent, hplain⟩ :
      ∃ present : Members, slot.getD .emptyMap = .map present ∧ present.IsPlain := by
    cases slot with
    | none => exact ⟨[], rfl, List.nodup_nil, fun _ _ hget => by cases hget⟩
    | some v => exact hslot v rfl
  obtain ⟨result, hmerged, hresult, hsettled⟩ :=
    exists_mergeMembers_of_isPlain keepNull hnew hplain.nodup
  rw [← hpresent] at hmerged
  refine ⟨_, mergedSlot_map hmerged, fun v hv => ?_, fun key => ?_⟩
  · split at hv
    · cases hv
      refine ⟨result, rfl, hresult, fun key v hget => ?_⟩
      rw [hsettled] at hget
      cases hkey : members.get? key with
      | none => exact hplain.kind_ne key v (by rwa [hkey] at hget)
      | some w => exact kind_ne_of_kept? (hnew.kind_ne key w hkey) (by rwa [hkey] at hget)
    · cases hv
  · rw [settingBelow_ite, settingBelow_map, hsettled, ← settingBelow_map present, ← hpresent,
      settingBelow_getD]

/-- Sections can be merged into others, each into the one of its name. -/
theorem exists_mergeMembers_of_isSectioned (keepNull : Bool) (hnew : members.IsSectioned)
    (hpresent : present.IsSectioned) :
    ∃ result : Members, mergeMembers keepNull (.map present) members = .ok (.map result) ∧
      result.IsSectioned ∧
      ∀ part name, (Value.map result).setting? [part, name] =
        settled keepNull ((Value.map members).setting? [part, name])
          ((Value.map present).setting? [part, name]) := by
  have hslot := fun part {options : Members} (hplain : options.IsPlain) =>
    exists_mergedSlot_of_isPlain keepNull (present.get? part) hplain (hpresent.isPlain part)
  obtain ⟨merged, hmerged⟩ : ∃ merged, mergeMembers keepNull (.map present) members = .ok merged :=
    exists_mergeMembers hnew.nodup fun part v hget => by
      obtain ⟨options, rfl, hplain⟩ := hnew.isPlain part v hget
      obtain ⟨after, hafter, -⟩ := hslot part hplain
      exact ⟨after, hafter⟩
  obtain ⟨result, rfl, hresult, hother, hsame⟩ :=
    exists_of_mergeMembers hnew.nodup hpresent.nodup hmerged
  refine ⟨result, hmerged, ⟨hresult, fun part v hget => ?_⟩, fun part name => ?_⟩
  · cases hpart : members.get? part with
    | none => exact hpresent.isPlain part v (hother part hpart ▸ hget)
    | some w =>
      obtain ⟨options, rfl, hplain⟩ := hnew.isPlain part w hpart
      obtain ⟨after, hafter, hsection, -⟩ := hslot part hplain
      have heq := Except.ok.inj (hafter.symm.trans (hsame part _ hpart))
      exact hsection v (heq.trans hget)
  · rw [Value.setting?_map, Value.setting?_map, Value.setting?_map]
    cases hpart : members.get? part with
    | none =>
      rw [hother part hpart]
      rfl
    | some w =>
      obtain ⟨options, rfl, hplain⟩ := hnew.isPlain part w hpart
      obtain ⟨after, hafter, -, hsettled⟩ := hslot part hplain
      have heq := Except.ok.inj (hafter.symm.trans (hsame part _ hpart))
      rw [← heq, hsettled, settingBelow_map]

end Settling

/-! ### Files -/

section Files

variable {keepNull : Bool} {file : Option String} {home working disk options sections : Members}

theorem IsConfigFile.isSectioned (h : IsConfigFile file sections) : sections.IsSectioned := by
  cases h with
  | missing => exact ⟨List.nodup_nil, fun _ _ hget => by cases hget⟩
  | given hread _ hplain =>
    have hnames := Value.hasDistinctKeys_of_hasNames (hasNames_of_readJson hread)
    refine ⟨hnames.nodup, fun part v hget => ?_⟩
    obtain ⟨options, rfl, hkinds⟩ := hplain part v hget
    exact ⟨options, rfl, (hnames.below hget).nodup, hkinds⟩

theorem IsConfigFile.readConfig_eq {text : String} (h : IsConfigFile (some text) sections) :
    readConfig text = .ok sections := by
  obtain _ | ⟨hread, hversion, -⟩ := h
  rw [readConfig, hread]
  show settingsOf (.map sections) = _
  rw [settingsOf, hversion]

/-- The sections of a file, none if there is no file. -/
def sectionsOf (file : Option String) : Except Error Members := file.elim (.ok []) readConfig

theorem IsConfigFile.sectionsOf_eq (h : IsConfigFile file sections) :
    sectionsOf file = .ok sections := by
  cases file with
  | none =>
    cases h
    rfl
  | some text => exact h.readConfig_eq

/-- The sections of the file in the working directory are merged after those of the other. -/
theorem settings_eq (files : ConfigFiles) (keepNull : Bool) :
    files.settings keepNull = (do
      let home ← sectionsOf files.home
      let first ← mergeMembers keepNull .emptyMap home
      let working ← sectionsOf files.working
      mergeMembers keepNull first working) := by
  obtain ⟨home, working⟩ := files
  cases home <;> cases working <;>
    simp only [ConfigFiles.settings, List.foldlM_cons, List.foldlM_nil, bind_pure, bind_assoc] <;>
    rfl

theorem settings_eq_ok {files : ConfigFiles} {first second : Value}
    (hhome : IsConfigFile files.home home) (hworking : IsConfigFile files.working working)
    (hfirst : mergeMembers keepNull .emptyMap home = .ok first)
    (hsecond : mergeMembers keepNull first working = .ok second) :
    files.settings keepNull = .ok second := by
  rw [settings_eq, hhome.sectionsOf_eq, hworking.sectionsOf_eq]
  exact (congrArg (Except.bind · (mergeMembers keepNull · working)) hfirst).trans hsecond

/-- Together the files hold, in each section, what they say about each option. -/
theorem exists_settings (keepNull : Bool) {files : ConfigFiles}
    (hhome : IsConfigFile files.home home) (hworking : IsConfigFile files.working working) :
    ∃ disk : Members, files.settings keepNull = .ok (.map disk) ∧ disk.IsSectioned ∧
      ∀ part name : String, (Value.map disk).setting? [.name part, .name name] =
        fileSetting? keepNull working home part name := by
  obtain ⟨first, hfirst, hfirstSectioned, hfirstSettled⟩ :=
    exists_mergeMembers_of_isSectioned keepNull hhome.isSectioned IsConfigFile.missing.isSectioned
  obtain ⟨disk, hdisk, hdiskSectioned, hdiskSettled⟩ :=
    exists_mergeMembers_of_isSectioned keepNull hworking.isSectioned hfirstSectioned
  refine ⟨disk, settings_eq_ok hhome hworking hfirst hdisk, hdiskSectioned, fun part name => ?_⟩
  rw [hdiskSettled, hfirstSettled, fileSetting?_eq]
  rfl

end Files

/-! ### Programs -/

section Programs

variable {keepNull : Bool} {home working disk options : Members} {part : Section}

theorem get?_ofNamed (defaults : List (String × Value)) (name : String) :
    Members.get? (defaults.map fun (name, v) => (Key.name name, v)) (.name name) =
      defaults.lookup name := by
  induction defaults with
  | nil => rfl
  | cons entry defaults ih =>
    obtain ⟨other, v⟩ := entry
    rw [List.map_cons, Members.get?_cons, List.lookup_cons, ih]
    by_cases heq : other = name
    · rw [if_pos (congrArg Key.name heq), heq, beq_self_eq_true]
    · rw [if_neg fun hkey => heq (Key.name.inj hkey), beq_false_of_ne (Ne.symm heq)]

/-- No default is a map, and none is declared twice. -/
def Section.HasPlainDefaults (part : Section) : Prop :=
  Members.IsPlain (part.defaults.map fun (name, v) => (.name name, v))

theorem hasPlainDefaults_of_mem_sections (program : Program) (hpart : part ∈ program.sections) :
    part.HasPlainDefaults := by
  have hchecked : ∀ program : Program, ∀ part ∈ program.sections,
      (part.defaults.map fun (name, _) => Key.name name).Nodup ∧
        ∀ entry ∈ part.defaults, entry.2.kind ≠ .map := by
    intro program
    cases program <;> decide
  obtain ⟨hnodup, hkinds⟩ := hchecked program part hpart
  refine ⟨?_, fun key v hget => ?_⟩
  · rw [Members.keys, List.map_map]
    exact hnodup
  · obtain ⟨entry, hentry, heq⟩ := List.mem_map.mp (Members.mem_of_get? hget)
    cases heq
    exact hkinds entry hentry

/-- One more section: what the files say in it about an option, or else its default, is merged into
    what was there. -/
theorem exists_addSection (keepNull : Bool) (hpart : part.HasPlainDefaults)
    (hdisk : disk.IsSectioned) (hoptions : options.keys.Nodup) :
    ∃ result : Members,
      addSection keepNull (.map disk) (.map options) part = .ok (.map result) ∧
      result.keys.Nodup ∧
      ∀ name : String, result.get? (.name name) = settled keepNull
        (((Value.map disk).setting? [.name part.name, .name name]).or (part.defaults.lookup name))
        (options.get? (.name name)) := by
  obtain ⟨first, hfirst, hnodup, hsettled⟩ :=
    exists_mergeMembers_of_isPlain keepNull hpart hoptions
  have hget : (Value.map disk).get? [.name part.name] = disk.get? (.name part.name) := by
    rw [Value.get?_cons]
    show (disk.get? (.name part.name)).bind _ = _
    cases disk.get? (.name part.name) <;> simp
  have hsetting : ∀ name : String, (Value.map disk).setting? [.name part.name, .name name] =
      settingBelow (disk.get? (.name part.name)) [.name name] := fun _ => rfl
  rw [addSection, Value.ofNamed, mergeSettings, hfirst, hget]
  cases hsection : disk.get? (.name part.name) with
  | none =>
    refine ⟨first, rfl, hnodup, fun name => ?_⟩
    rw [hsettled, hsetting, hsection, get?_ofNamed]
    rfl
  | some v =>
    obtain ⟨changes, rfl, hplain⟩ := hdisk.isPlain _ v hsection
    obtain ⟨result, hresult, hnodup, hlast⟩ :=
      exists_mergeMembers_of_isPlain keepNull hplain hnodup
    refine ⟨result, hresult, hnodup, fun name => ?_⟩
    rw [hlast, hsettled, hsetting, hsection, settingBelow_map, settled_or, get?_ofNamed]

/-- Several sections: the last one decides that says something about an option. -/
theorem exists_foldlM_addSection {parts : List Section}
    (hparts : ∀ part ∈ parts, part.HasPlainDefaults) (hdisk : disk.IsSectioned)
    (hfiles : ∀ part name : String, (Value.map disk).setting? [.name part, .name name] =
      fileSetting? keepNull working home part name)
    (hoptions : options.keys.Nodup) :
    ∃ result : Members,
      parts.foldlM (addSection keepNull (.map disk)) (.map options) = .ok (.map result) ∧
      ∀ name : String, result.get? (.name name) = settled keepNull
        (parts.reverse.findSome? (Section.decision? keepNull working home name))
        (options.get? (.name name)) := by
  induction parts generalizing options with
  | nil => exact ⟨options, rfl, fun _ => rfl⟩
  | cons part parts ih =>
    obtain ⟨first, hfirst, hnodup, hdecided⟩ :=
      exists_addSection keepNull (hparts part List.mem_cons_self) hdisk hoptions
    obtain ⟨result, hresult, hlater⟩ :=
      ih (fun other hother => hparts other (List.mem_cons_of_mem _ hother)) hnodup
    refine ⟨result, ?_, fun name => ?_⟩
    · rw [List.foldlM_cons, hfirst]
      exact hresult
    · rw [hlater, hdecided, hfiles, ← settled_or, List.reverse_cons, List.findSome?_append,
        List.findSome?_singleton, Section.decision?]

theorem ofValue_name (program : Program) : Program.ofValue (.text program.name) = .ok program := by
  cases program <;> rfl

/-- The options of a program can be built from any two files of sections, and the value of each is
    what the most special section says that says something about it: in the file in the working
    directory, in the one in the home directory, or as its default. -/
theorem exists_buildConfig (program : Program) (keepNull : Bool) (files : ConfigFiles)
    {home working : Members} (hhome : IsConfigFile files.home home)
    (hworking : IsConfigFile files.working working) :
    ∃ options : Members,
      buildConfig (.text program.name) keepNull files = .ok (.map options) ∧
      ∀ name : String,
        options.get? (.name name) = program.decided? keepNull working home name := by
  obtain ⟨disk, hsettings, hdisk, hfiles⟩ := exists_settings keepNull hhome hworking
  obtain ⟨options, hoptions, hdecided⟩ :=
    exists_foldlM_addSection (fun _ => hasPlainDefaults_of_mem_sections program) hdisk hfiles
      (show (Members.keys []).Nodup from List.nodup_nil)
  refine ⟨options, ?_, fun name => ?_⟩
  · rw [buildConfig, ofValue_name]
    show program.config keepNull files = _
    rw [Program.config, hsettings]
    exact hoptions
  · rw [hdecided, Members.get?_nil, settled_none, Program.decided?]

/-- From special to general, as the sections are asked. -/
example : Program.ddbexpr.sections.reverse.map (·.name) =
    ["DdbExpr", "_Compiling", "_Diffing", "Global", "_Locking", "_Printing",
      "DdbUpdateConfigurable"] := rfl

/-- A file of sections that are given by their names and options. -/
theorem isConfigFile_of_named {text : String} (parts : List (String × List (String × Value)))
    (hread : readJson .binary text =
      .ok (.map (parts.map fun (part, options) => (.name part, .ofNamed options))))
    (hversion : ∀ part ∈ parts, part.1 ≠ "version")
    (hkinds : ∀ part ∈ parts, ∀ option ∈ part.2, option.2.kind ≠ .map) :
    IsConfigFile (some text) (parts.map fun (part, options) => (.name part, .ofNamed options)) := by
  refine .given hread ?_ fun key v hget => ?_
  · refine Members.get?_eq_none_iff.mpr fun hkey => ?_
    rw [Members.keys, List.map_map] at hkey
    obtain ⟨part, hpart, heq⟩ := List.mem_map.mp hkey
    exact hversion part hpart (Key.name.inj heq)
  · obtain ⟨part, hpart, heq⟩ := List.mem_map.mp (Members.mem_of_get? hget)
    cases heq
    refine ⟨_, rfl, fun name w hname => ?_⟩
    obtain ⟨option, hoption, heq⟩ := List.mem_map.mp (Members.mem_of_get? hname)
    cases heq
    exact hkinds part hpart option hoption

/-- A null in the working directory hides an option, a default of a special section takes away one
    of a general section, and a special section overrides the default of a general one. -/
theorem exists_buildConfig_of_hidden_options :
    ∃ options : Members,
      buildConfig (.text Program.ddbexpr.name) false
        ⟨some "\x7b\"DdbExpr\":\x7b\"orphans\":7\x7d,\"_Locking\":\x7b\"color\":8\x7d\x7d",
          some "\x7b\"Global\":\x7b\"prefix\":6\x7d,\"DdbExpr\":\x7b\"orphans\":null\x7d\x7d"⟩ =
        .ok (.map options) ∧
      options.get? (.name "log_level") = some (.text "INFO") ∧
      options.get? (.name "prefix") = none ∧
      options.get? (.name "orphans") = some (.bool false) ∧
      options.get? (.name "color") = some (.int 8) ∧
      options.get? (.name "condition") = some (.text "=") ∧
      options.get? (.name "other") = none := by
  obtain ⟨options, hoptions, hdecided⟩ := exists_buildConfig .ddbexpr false
    ⟨some "\x7b\"DdbExpr\":\x7b\"orphans\":7\x7d,\"_Locking\":\x7b\"color\":8\x7d\x7d",
      some "\x7b\"Global\":\x7b\"prefix\":6\x7d,\"DdbExpr\":\x7b\"orphans\":null\x7d\x7d"⟩
    (isConfigFile_of_named
      [("DdbExpr", [("orphans", .int 7)]), ("_Locking", [("color", .int 8)])]
      (eq_ok_of_toOption (by decide +kernel)) (by decide) (by decide))
    (isConfigFile_of_named
      [("Global", [("prefix", .int 6)]), ("DdbExpr", [("orphans", .null)])]
      (eq_ok_of_toOption (by decide +kernel)) (by decide) (by decide))
  refine ⟨options, hoptions, ?_⟩
  simp only [hdecided]
  decide

end Programs

end ItemDelta
