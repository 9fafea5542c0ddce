import ItemDelta.Layout
import ItemDelta.Proofs.Action
import ItemDelta.Proofs.Json.Plain
import ItemDelta.Proofs.Value.Inspected

/-!
# Wrapped values, line by line

A value that fits between its indentation and the right margin is its inspected form, which has no
line feed. One that does not fit takes several lines, and all of them but the first start with a
blank: a piece of a text stands behind its parenthesis, an item behind its bracket. Nothing of a
document keeps it from being wrapped but a decimal NaN among the numbers of a set.

## Main definitions

* `continuations` — the lines of a text behind its first one.
* `IsHanging` — a text whose line feeds are followed by blanks.
* `Value.isShowable` — no integer is too long to be written, and the elements of a set can be put
  in order.

## Main results

* `IsHanging.head?_of_mem` — the lines of a hanging text behind its first one start with a blank.
* `Value.isHanging_wrapAt` — a wrapped value hangs.
* `Value.wrapAt_of_fitsInto` — what fits is its inspected form.
* `Value.exists_wrapped` — values that can be shown can be wrapped.
-/

namespace ItemDelta

/-! ### Texts that hang behind their first line -/

/-- The lines of a text behind its first one. -/
def continuations (text : List Char) : List (List Char) := (text.splitOn '\n').tail

/-- Behind each line feed of a text stands a blank. -/
def IsHanging (text : List Char) : Prop :=
  ∀ front rest, text = front ++ '\n' :: rest → rest.head? = some ' '

section Hanging

variable {text other : List Char} {indent : Nat}

theorem splitOn_eq_cons_continuations (text : List Char) :
    ∃ first, text.splitOn '\n' = first :: continuations text := by
  obtain ⟨first, rest, h⟩ := List.exists_cons_of_ne_nil (List.splitOn_ne_nil '\n' text)
  exact ⟨first, by rw [continuations, h, List.tail_cons]⟩

theorem splitOn_cons_of_ne {c : Char} (h : c ≠ '\n') (text : List Char) :
    ∃ first, text.splitOn '\n' = first :: continuations text ∧
      (c :: text).splitOn '\n' = (c :: first) :: continuations text := by
  obtain ⟨first, hfirst⟩ := splitOn_eq_cons_continuations text
  refine ⟨first, hfirst, ?_⟩
  rw [List.splitOn_cons_eq_if_modifyHead, if_neg (by simpa using h), hfirst, List.modifyHead_cons]

/-- What stands in front of a text belongs to its first line. -/
theorem splitOn_append_of_notMem {front : List Char} (h : '\n' ∉ front) (text : List Char) :
    ∃ first, (front ++ text).splitOn '\n' = (front ++ first) :: continuations text := by
  induction front with
  | nil => exact splitOn_eq_cons_continuations text
  | cons c front ih =>
    rw [List.mem_cons, not_or] at h
    obtain ⟨first, hfirst⟩ := ih h.2
    obtain ⟨second, hsecond, hcons⟩ := splitOn_cons_of_ne (Ne.symm h.1) (front ++ text)
    rw [hfirst, List.cons_eq_cons] at hsecond
    exact ⟨first, by rw [List.cons_append, hcons, ← hsecond.1, ← hsecond.2, List.cons_append]⟩

theorem continuations_eq_nil_iff : continuations text = [] ↔ '\n' ∉ text := by
  constructor
  · rintro hnil hmem
    obtain ⟨front, rest, rfl⟩ := List.append_of_mem hmem
    obtain ⟨first, hfirst⟩ := splitOn_eq_cons_continuations front
    rw [continuations, List.splitOn_append_cons_self, hfirst, List.cons_append, List.tail_cons,
      List.append_eq_nil_iff] at hnil
    exact List.splitOn_ne_nil '\n' rest hnil.2
  · intro h
    rw [continuations, List.splitOn_eq_singleton h, List.tail_cons]

/-- The lines of a hanging text behind its first one start with a blank. -/
theorem IsHanging.head?_of_mem (h : IsHanging text) {l : List Char}
    (hl : l ∈ continuations text) : l.head? = some ' ' := by
  induction text with
  | nil => simp [continuations] at hl
  | cons c text ih =>
    have hrest : IsHanging text := fun front rest heq =>
      h (c :: front) rest (by rw [heq, List.cons_append])
    by_cases hc : c = '\n'
    · subst hc
      have hsplit : continuations ('\n' :: text) = text.splitOn '\n' := by
        rw [continuations, List.splitOn_cons_eq_if_modifyHead]
        rfl
      obtain ⟨rest, rfl⟩ : ∃ rest, text = ' ' :: rest := by
        have hhead := h [] text rfl
        cases text with
        | nil => cases hhead
        | cons d rest => exact ⟨rest, by rw [Option.some.inj hhead]⟩
      obtain ⟨first, -, hcons⟩ := splitOn_cons_of_ne (show ' ' ≠ '\n' by decide) rest
      rw [hsplit, hcons] at hl
      rcases List.mem_cons.mp hl with rfl | hl
      · rfl
      · exact ih hrest (by rwa [continuations, hcons, List.tail_cons])
    · obtain ⟨first, -, hcons⟩ := splitOn_cons_of_ne hc text
      rw [continuations, hcons, List.tail_cons] at hl
      exact ih hrest hl

theorem isHanging_of_notMem (h : '\n' ∉ text) : IsHanging text := by
  rintro front rest rfl
  simp at h

/-- What hangs still does with something that hangs behind it. -/
theorem IsHanging.append (h : IsHanging text) (hother : IsHanging other) :
    IsHanging (text ++ other) := by
  intro front rest heq
  obtain ⟨middle, rfl, hmiddle⟩ | ⟨middle, rfl, hmiddle⟩ := List.append_eq_append_iff.mp heq
  · exact hother middle rest hmiddle
  · cases middle with
    | nil => exact hother [] rest (by simpa using hmiddle.symm)
    | cons c middle =>
      obtain ⟨rfl, rfl⟩ := List.cons_eq_cons.mp hmiddle
      have hhead := h front middle rfl
      cases middle with
      | nil => cases hhead
      | cons d middle => exact hhead

theorem IsHanging.cons {c : Char} (hc : c ≠ '\n') (h : IsHanging text) : IsHanging (c :: text) := by
  have hfirst : IsHanging [c] := isHanging_of_notMem (by simpa using hc.symm)
  exact hfirst.append h

theorem isHanging_indentedLine (h : 0 < indent) : IsHanging (indentedLine indent) := by
  obtain ⟨indent, rfl⟩ := Nat.exists_eq_succ_of_ne_zero (Nat.ne_of_gt h)
  intro front rest heq
  cases front with
  | nil =>
    rw [List.nil_append, indentedLine, List.cons_eq_cons] at heq
    rw [← heq.2, List.replicate_succ, List.head?_cons]
  | cons c front =>
    rw [indentedLine, List.cons_append, List.cons_eq_cons] at heq
    have hmem : '\n' ∈ List.replicate indent.succ ' ' := by simp [heq.2]
    exact absurd (List.eq_of_mem_replicate hmem) (by decide)

end Hanging

/-! ### Pieces of texts -/

section Pieces

variable {pieces : List (List Char)} {indent : Nat}

theorem lineFeed_notMem_fillParts (width lastWidth : Int) (parts : List (List Char)) :
    ∀ current, ∀ piece ∈ fillParts width lastWidth current parts, '\n' ∉ piece := by
  have hpart (current : List Char) :
      ∀ piece ∈ (if current.isEmpty then [] else [inspectChars current]), '\n' ∉ piece := by
    split
    · simp
    · simpa using lineFeed_notMem_inspectText current
  induction parts with
  | nil => exact hpart
  | cons part parts ih =>
    intro current
    rw [fillParts]
    generalize (if parts.isEmpty then lastWidth else width) = available
    split
    · rw [List.forall_mem_append]
      exact ⟨hpart current, ih part⟩
    · exact ih (current ++ part)

/-- The pieces of a text stand on one line each. -/
theorem lineFeed_notMem_wrapLines (width lastWidth : Int) (lines : List (List Char)) :
    ∀ piece ∈ wrapLines width lastWidth lines, '\n' ∉ piece := by
  induction lines with
  | nil => simp [wrapLines]
  | cons line lines ih =>
    rw [wrapLines, List.forall_mem_append]
    refine ⟨?_, ih⟩
    generalize (if lines.isEmpty then lastWidth else width) = available
    split
    · exact lineFeed_notMem_fillParts _ _ _ _
    · simpa using lineFeed_notMem_inspectText line

theorem isHanging_stacked (hindent : 0 < indent) (h : ∀ piece ∈ pieces, '\n' ∉ piece) :
    IsHanging (stacked indent pieces) := by
  induction pieces using stacked.induct with
  | case1 => exact isHanging_of_notMem List.not_mem_nil
  | case2 piece => exact isHanging_of_notMem (h piece List.mem_cons_self)
  | case3 piece pieces hpieces ih =>
    rw [stacked]
    · have hfirst := isHanging_of_notMem (h piece List.mem_cons_self)
      have hrest := ih fun other hother => h other (List.mem_cons_of_mem _ hother)
      exact (hfirst.append (isHanging_indentedLine hindent)).append hrest
    · exact hpieces

theorem isHanging_wrapText {alone : Bool} (h : alone = true ∨ 0 < indent) (allowance : Nat)
    (text : List Char) : IsHanging (wrapText alone indent allowance text) := by
  have hstacked {inner : Nat} (hinner : 0 < inner) (width lastWidth : Int) :=
    isHanging_stacked hinner (lineFeed_notMem_wrapLines width lastWidth (splitLines text))
  unfold wrapText
  dsimp only
  split
  · exact isHanging_of_notMem (lineFeed_notMem_inspectText text)
  · rename_i piece hpieces
    have hpiece := lineFeed_notMem_wrapLines _ _ _ piece (hpieces ▸ List.mem_cons_self)
    exact isHanging_of_notMem hpiece
  · cases alone with
    | false => exact hstacked (h.resolve_left Bool.false_ne_true) _ _
    | true =>
      have hpieces := hstacked (Nat.succ_pos indent) ((lineWidth : Int) - (indent + 1 : Nat))
        ((lineWidth : Int) - (indent + 1 : Nat) - (allowance + 1 : Nat))
      exact (hpieces.cons (by decide)).append (isHanging_of_notMem (by decide))

end Pieces

namespace Value

/-! ### Values that are wrapped -/

section Equations

variable (alone : Bool) (indent allowance : Nat)

theorem wrapAt_list (items : List Value) : wrapAt alone indent allowance (.list items) =
    if fitsInto (.list items) indent allowance then .ok (inspectChars (.list items))
    else (wrapItems (indent + 1) (allowance + 1) items).bind fun lines =>
      .ok ('[' :: lines ++ [']']) := rfl

theorem wrapAt_map (members : Members) : wrapAt alone indent allowance (.map members) =
    if fitsInto (.map members) indent allowance then .ok (inspectChars (.map members))
    else (wrapMembers (indent + 1) (allowance + 1) members).bind fun lines =>
      .ok ('\x7b' :: lines ++ ['\x7d']) := rfl

theorem wrapAt_set_cons (v : Value) (elements : List Value) :
    wrapAt alone indent allowance (.set (v :: elements)) =
      if fitsInto (.set (v :: elements)) indent allowance then
        .ok (inspectChars (.set (v :: elements)))
      else (checkSortable (v :: elements)).bind fun _ =>
        (wrapItems (indent + 1) (allowance + 1) (v :: elements)).bind fun lines =>
          .ok ('\x7b' :: lines ++ ['\x7d']) := rfl

theorem wrapItems_cons_cons (v w : Value) (items : List Value) :
    wrapItems indent allowance (v :: w :: items) =
      (wrapAt false indent 1 v).bind fun first =>
        (wrapItems indent allowance (w :: items)).bind fun rest =>
          .ok (first ++ ',' :: indentedLine indent ++ rest) := rfl

theorem wrapMembers_singleton (key : Key) (v : Value) :
    wrapMembers indent allowance [(key, v)] =
      (wrapAt false (indent + key.inspectChars.length + 2) allowance v).bind fun lines =>
        .ok (key.inspectChars ++ ':' :: ' ' :: lines) := rfl

theorem wrapMembers_cons_cons (key : Key) (v : Value) (member : Key × Value) (members : Members) :
    wrapMembers indent allowance ((key, v) :: member :: members) =
      (wrapAt false (indent + key.inspectChars.length + 2) 1 v).bind fun first =>
        (wrapMembers indent allowance (member :: members)).bind fun rest =>
          .ok (key.inspectChars ++ ':' :: ' ' :: first ++ ',' :: indentedLine indent ++ rest) := rfl

end Equations

/-- What fits is its inspected form. -/
theorem wrapAt_of_fitsInto {v : Value} (alone : Bool) {indent allowance : Nat}
    (h : v.fitsInto indent allowance = true) :
    wrapAt alone indent allowance v = .ok v.inspectChars := by
  cases v with
  | null => rfl
  | bool b => rfl
  | int n => rfl
  | float x => rfl
  | decimal d => rfl
  | text s => exact if_pos h
  | list items => exact if_pos h
  | map members => exact if_pos h
  | set elements =>
    cases elements with
    | nil => rfl
    | cons e es => exact if_pos h

/-- Only what is too wide has to be looked into. -/
theorem isHanging_of_wide {v : Value} {alone : Bool} {indent allowance : Nat} {shown : List Char}
    (h : wrapAt alone indent allowance v = .ok shown)
    (hwide : ¬v.fitsInto indent allowance = true → IsHanging shown) : IsHanging shown := by
  by_cases hfits : v.fitsInto indent allowance = true
  · rw [wrapAt_of_fitsInto alone hfits, Except.ok.injEq] at h
    exact h ▸ isHanging_of_notMem (lineFeed_notMem_inspectChars v)
  · exact hwide hfits

/-- Lines in brackets hang behind the opening one. -/
theorem isHanging_bracketed {lines : List Char} {first last : Char} (hfirst : first ≠ '\n')
    (hlast : last ≠ '\n') (h : IsHanging lines) : IsHanging (first :: lines ++ [last]) :=
  (h.cons hfirst).append (isHanging_of_notMem (by simpa using hlast.symm))

/-- An item and what stands below it, with a comma between them. -/
theorem isHanging_below {indent : Nat} {first rest : List Char} (hindent : 0 < indent)
    (hfirst : IsHanging first) (hrest : IsHanging rest) :
    IsHanging (first ++ ',' :: indentedLine indent ++ rest) :=
  (hfirst.append ((isHanging_indentedLine hindent).cons (by decide))).append hrest

/-- A key and the lines of what is held under it. -/
theorem isHanging_member (key : Key) {lines : List Char} (h : IsHanging lines) :
    IsHanging (key.inspectChars ++ ':' :: ' ' :: lines) :=
  (isHanging_of_notMem key.lineFeed_notMem_inspectChars).append
    ((h.cons (by decide)).cons (by decide))

mutual

/-- The lines of a wrapped value behind its first one start with a blank. -/
theorem isHanging_wrapAt {alone : Bool} {indent allowance : Nat} {shown : List Char}
    (hindent : alone = true ∨ 0 < indent) :
    ∀ v : Value, wrapAt alone indent allowance v = .ok shown → IsHanging shown
  | .null, h | .bool _, h | .int _, h | .float _, h | .decimal _, h | .set [], h => by
    rw [← Except.ok.inj h]
    exact isHanging_of_notMem (lineFeed_notMem_inspectChars _)
  | .text s, h => by
    refine isHanging_of_wide h fun hwide => ?_
    rw [wrapAt, if_neg hwide, Except.ok.injEq] at h
    exact h ▸ isHanging_wrapText hindent allowance s.toList
  | .list items, h => by
    refine isHanging_of_wide h fun hwide => ?_
    rw [wrapAt_list, if_neg hwide] at h
    obtain ⟨lines, hlines, h⟩ := exists_of_bind_eq_ok h
    have hitems := isHanging_wrapItems indent.succ_pos items hlines
    exact Except.ok.inj h ▸ isHanging_bracketed (by decide) (by decide) hitems
  | .map members, h => by
    refine isHanging_of_wide h fun hwide => ?_
    rw [wrapAt_map, if_neg hwide] at h
    obtain ⟨lines, hlines, h⟩ := exists_of_bind_eq_ok h
    have hmembers := isHanging_wrapMembers indent.succ_pos members hlines
    exact Except.ok.inj h ▸ isHanging_bracketed (by decide) (by decide) hmembers
  | .set (e :: es), h => by
    refine isHanging_of_wide h fun hwide => ?_
    rw [wrapAt_set_cons, if_neg hwide] at h
    obtain ⟨_, -, h⟩ := exists_of_bind_eq_ok h
    obtain ⟨lines, hlines, h⟩ := exists_of_bind_eq_ok h
    have hitems := isHanging_wrapItems indent.succ_pos (e :: es) hlines
    exact Except.ok.inj h ▸ isHanging_bracketed (by decide) (by decide) hitems

theorem isHanging_wrapItems {indent allowance : Nat} {shown : List Char} (hindent : 0 < indent) :
    ∀ items : List Value, wrapItems indent allowance items = .ok shown → IsHanging shown
  | [], h => Except.ok.inj h ▸ isHanging_of_notMem List.not_mem_nil
  | [v], h => isHanging_wrapAt (.inr hindent) v h
  | v :: w :: items, h => by
    rw [wrapItems_cons_cons] at h
    obtain ⟨first, hfirst, h⟩ := exists_of_bind_eq_ok h
    obtain ⟨rest, hrest, h⟩ := exists_of_bind_eq_ok h
    exact Except.ok.inj h ▸ isHanging_below hindent (isHanging_wrapAt (.inr hindent) v hfirst)
      (isHanging_wrapItems hindent (w :: items) hrest)

theorem isHanging_wrapMembers {indent allowance : Nat} {shown : List Char} (hindent : 0 < indent) :
    ∀ members : List (Key × Value), wrapMembers indent allowance members = .ok shown →
      IsHanging shown
  | [], h => Except.ok.inj h ▸ isHanging_of_notMem List.not_mem_nil
  | [(key, v)], h => by
    rw [wrapMembers_singleton] at h
    obtain ⟨lines, hlines, h⟩ := exists_of_bind_eq_ok h
    have hvalue := isHanging_wrapAt (.inr (by omega)) v hlines
    exact Except.ok.inj h ▸ isHanging_member key hvalue
  | (key, v) :: member :: members, h => by
    rw [wrapMembers_cons_cons] at h
    obtain ⟨first, hfirst, h⟩ := exists_of_bind_eq_ok h
    obtain ⟨rest, hrest, h⟩ := exists_of_bind_eq_ok h
    have hvalue := isHanging_wrapAt (.inr (by omega)) v hfirst
    exact Except.ok.inj h ▸ isHanging_below hindent (isHanging_member key hvalue)
      (isHanging_wrapMembers hindent (member :: members) hrest)

end

/-! ### Values that can be shown -/

/-- Whether an integer is not too long to be written, and the elements of a set can be put in
    order. -/
def isShowable : Value → Bool
  | .int n => !isLongInteger n
  | .set elements => (checkSortable elements).toOption.isSome
  | _ => true

/-- A value that can be shown, with names as keys and each of them once. -/
abbrev IsShowable : Value → Prop := IsTreeOf isShowable

theorem checkSortable_eq_ok {elements : List Value}
    (h : (Value.set elements).isShowable = true) : checkSortable elements = .ok () := by
  rw [isShowable, Option.isSome_iff_exists] at h
  obtain ⟨⟨⟩, h⟩ := h
  exact eq_ok_of_toOption h

mutual

theorem exists_wrapAt (alone : Bool) (indent allowance : Nat) : ∀ v : Value,
    v.everywhere isShowable = true → ∃ shown, wrapAt alone indent allowance v = .ok shown
  | .null | .bool _ | .int _ | .float _ | .decimal _ | .set [] => fun _ => ⟨_, rfl⟩
  | .text s => fun _ => by
    rw [wrapAt]
    split <;> exact ⟨_, rfl⟩
  | .list items => fun h => by
    rw [everywhere, Bool.and_eq_true] at h
    obtain ⟨lines, hlines⟩ := exists_wrapItems (indent + 1) (allowance + 1) items h.2
    rw [wrapAt_list, hlines]
    split <;> exact ⟨_, rfl⟩
  | .map members => fun h => by
    rw [everywhere, Bool.and_eq_true] at h
    obtain ⟨lines, hlines⟩ := exists_wrapMembers (indent + 1) (allowance + 1) members h.2
    rw [wrapAt_map, hlines]
    split <;> exact ⟨_, rfl⟩
  | .set (e :: es) => fun h => by
    rw [everywhere, Bool.and_eq_true] at h
    obtain ⟨lines, hlines⟩ := exists_wrapItems (indent + 1) (allowance + 1) (e :: es) h.2
    rw [wrapAt_set_cons, checkSortable_eq_ok h.1, hlines]
    split <;> exact ⟨_, rfl⟩

theorem exists_wrapItems (indent allowance : Nat) : ∀ items : List Value,
    everywhereItems isShowable items = true → ∃ shown, wrapItems indent allowance items = .ok shown
  | [] => fun _ => ⟨_, rfl⟩
  | [v] => fun h => by
    rw [everywhereItems, Bool.and_eq_true] at h
    exact exists_wrapAt false indent allowance v h.1
  | v :: w :: items => fun h => by
    rw [everywhereItems, Bool.and_eq_true] at h
    obtain ⟨first, hfirst⟩ := exists_wrapAt false indent 1 v h.1
    obtain ⟨rest, hrest⟩ := exists_wrapItems indent allowance (w :: items) h.2
    rw [wrapItems_cons_cons, hfirst, Except.bind, hrest]
    exact ⟨_, rfl⟩

theorem exists_wrapMembers (indent allowance : Nat) : ∀ members : List (Key × Value),
    everywhereMembers isShowable members = true →
      ∃ shown, wrapMembers indent allowance members = .ok shown
  | [] => fun _ => ⟨_, rfl⟩
  | [(key, v)] => fun h => by
    rw [everywhereMembers, Bool.and_eq_true] at h
    obtain ⟨lines, hlines⟩ :=
      exists_wrapAt false (indent + key.inspectChars.length + 2) allowance v h.1
    rw [wrapMembers_singleton, hlines]
    exact ⟨_, rfl⟩
  | (key, v) :: member :: members => fun h => by
    rw [everywhereMembers, Bool.and_eq_true] at h
    obtain ⟨first, hfirst⟩ := exists_wrapAt false (indent + key.inspectChars.length + 2) 1 v h.1
    obtain ⟨rest, hrest⟩ := exists_wrapMembers indent allowance (member :: members) h.2
    rw [wrapMembers_cons_cons, hfirst, Except.bind, hrest]
    exact ⟨_, rfl⟩

end

/-- A value that can be shown can be wrapped. -/
theorem exists_wrapped {v : Value} (h : v.IsShowable) : ∃ shown, v.wrapped = .ok shown := by
  have hsorted := h.sortMembers (fun _ => rfl) fun _ _ _ _ => rfl
  exact exists_wrapAt true 0 0 v.sortMembers hsorted.held

mutual

/-- No integer in a value that can be shown is too long to be written. -/
theorem hasLongInteger_eq_false : ∀ v : Value, v.everywhere hasNames = true →
    v.everywhere isShowable = true → v.hasLongInteger = false
  | .null | .bool _ | .float _ | .decimal _ | .text _ => fun _ _ => rfl
  | .int n => fun _ h => (Bool.not_eq_true' _).mp h
  | .list items => fun hnames h => by
    rw [everywhere, Bool.and_eq_true] at hnames h
    exact anyLongInteger_eq_false items hnames.2 h.2
  | .map members => fun hnames h => by
    rw [everywhere, Bool.and_eq_true] at hnames h
    exact anyLongMember_eq_false members (fun _ hkey => exists_name_of_hasNames hnames.1 hkey)
      hnames.2 h.2
  | .set elements => fun hnames h => by
    rw [everywhere, Bool.and_eq_true] at hnames h
    exact anyLongInteger_eq_false elements hnames.2 h.2

theorem anyLongInteger_eq_false : ∀ vs : List Value, everywhereItems hasNames vs = true →
    everywhereItems isShowable vs = true → anyLongInteger vs = false
  | [] => fun _ _ => rfl
  | v :: vs => fun hnames h => by
    rw [everywhereItems, Bool.and_eq_true] at hnames h
    rw [anyLongInteger, hasLongInteger_eq_false v hnames.1 h.1,
      anyLongInteger_eq_false vs hnames.2 h.2]
    rfl

theorem anyLongMember_eq_false : ∀ members : List (Key × Value),
    (∀ key ∈ Members.keys members, ∃ name, key = .name name) →
      everywhereMembers hasNames members = true → everywhereMembers isShowable members = true →
        anyLongMember members = false
  | [] => fun _ _ _ => rfl
  | (key, v) :: members => fun hkeys hnames h => by
    rw [everywhereMembers, Bool.and_eq_true] at hnames h
    rw [Members.keys_cons, List.forall_mem_cons] at hkeys
    obtain ⟨⟨name, rfl⟩, hkeys⟩ := hkeys
    rw [anyLongMember, hasLongInteger_eq_false v hnames.1 h.1,
      anyLongMember_eq_false members hkeys hnames.2 h.2]
    rfl

end

end Value

end ItemDelta
