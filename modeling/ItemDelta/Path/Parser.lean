import ItemDelta.Path.Printer
import ItemDelta.Text.Digit

/-!
# Reading paths

A path is read segment by segment behind the root sign. Every step of the printed form is a
segment; besides, any name may stand between quotes, with any escapes, and positions may be
written in the digits of any script and with leading zeros.

## Main definitions

* `Segment` — one segment, which remembers how its key was written.
* `scanSegment` — the segment at the front of a text.
* `parsePath` — the segments of a path.
* `pathKeys` — its keys.
* `ancestorPaths` — the paths of all strict ancestors but the root.
-/

namespace ItemDelta

/-- One segment of a path. -/
inductive Segment where
  | name (text : String)
  | quoted (text : String)
  | index (position : Nat)
deriving DecidableEq

/-- The key that a segment leads along. -/
def Segment.key : Segment → Key
  | .name text => .name text
  | .quoted text => .name text
  | .index position => .index position

/-- Whether a segment leads to a list element. -/
def Segment.isIndex : Segment → Bool
  | .index _ => true
  | _ => false

/-- Why no segment is found at the front of a text. -/
inductive SegmentFault where
  /-- The text does not have the shape of a segment. -/
  | shape
  /-- The quoted name has the shape of a literal and is none. -/
  | literal
  /-- The position has too many digits. -/
  | digits (count : Nat)
deriving DecidableEq

/-- What follows the quote that closes a literal. A quote behind a backslash does not close it,
    and no backslash stands at the end of a line. -/
def afterLiteral? : List Char → Option (List Char)
  | [] => none
  | '"' :: rest => some rest
  | ['\\'] => none
  | '\\' :: c :: rest => if c = '\n' then none else afterLiteral? rest
  | _ :: rest => afterLiteral? rest

theorem length_lt_of_afterLiteral? {text rest : List Char} (h : afterLiteral? text = some rest) :
    rest.length < text.length := by
  fun_induction afterLiteral? text with
  | case1 => simp at h
  | case2 rest' => simp only [Option.some.injEq] at h; subst h; simp
  | case3 => simp at h
  | case4 => simp at h
  | case5 c rest' _ ih => have := ih h; simp only [List.length_cons]; omega
  | case6 c rest' _ _ _ ih => have := ih h; simp only [List.length_cons]; omega

/-- The number written in decimal digits of any script. -/
def positionValue (digits : List Char) : Nat :=
  digits.foldl (fun value c => 10 * value + (decimalDigit? c).getD 0) 0

/-- The name between quotes in brackets, the opening bracket and quote already read. -/
def scanQuotedName (text : List Char) : Except SegmentFault (Segment × List Char) :=
  match afterLiteral? text with
  | some (']' :: rest) =>
    match scanQuoted? text with
    | some (name, _) => .ok (.quoted (String.ofList name), rest)
    | none => .error .literal
  | _ => .error .shape

/-- The position in brackets, the opening bracket already read. -/
def scanPosition (text : List Char) : Except SegmentFault (Segment × List Char) :=
  let digits := text.takeWhile fun c => (decimalDigit? c).isSome
  match digits, text.dropWhile fun c => (decimalDigit? c).isSome with
  | _ :: _, ']' :: rest =>
    if integerDigitLimit < digits.length then .error (.digits digits.length)
    else .ok (.index (positionValue digits), rest)
  | _, _ => .error .shape

/-- The plain name behind a point. -/
def scanPlainName (text : List Char) : Except SegmentFault (Segment × List Char) :=
  match text with
  | [] => .error .shape
  | c :: rest =>
    if isIdentifierStart c then
      .ok (.name (String.ofList (c :: rest.takeWhile isIdentifierPart)),
        rest.dropWhile isIdentifierPart)
    else .error .shape

/-- The segment at the front of a text, and what follows it. -/
def scanSegment : List Char → Except SegmentFault (Segment × List Char)
  | '.' :: text => scanPlainName text
  | '[' :: '"' :: text => scanQuotedName text
  | '[' :: text => scanPosition text
  | _ => .error .shape

theorem length_dropWhile_le {α : Type} (p : α → Bool) (xs : List α) :
    (xs.dropWhile p).length ≤ xs.length :=
  (List.dropWhile_sublist p).length_le

/-- A segment is not empty. -/
theorem length_lt_of_scanSegment {text rest : List Char} {segment : Segment}
    (h : scanSegment text = .ok (segment, rest)) : rest.length < text.length := by
  unfold scanSegment at h
  split at h
  · rename_i text
    unfold scanPlainName at h
    split at h
    · simp at h
    · rename_i c tail
      split at h
      · simp only [Except.ok.injEq, Prod.mk.injEq] at h
        have := length_dropWhile_le isIdentifierPart tail
        rw [← h.2]
        simp only [List.length_cons]
        omega
      · simp at h
  · rename_i text
    unfold scanQuotedName at h
    split at h
    · rename_i after hafter
      have hlength := length_lt_of_afterLiteral? hafter
      split at h
      · simp only [Except.ok.injEq, Prod.mk.injEq] at h
        rw [← h.2]
        simp only [List.length_cons] at hlength ⊢
        omega
      · simp at h
    · simp at h
  · rename_i text _
    unfold scanPosition at h
    simp only at h
    split at h
    · rename_i tail _ hdrop
      have hlength := length_dropWhile_le (fun c => (decimalDigit? c).isSome) text
      rw [hdrop] at hlength
      split at h
      · simp at h
      · simp only [Except.ok.injEq, Prod.mk.injEq] at h
        rw [← h.2]
        simp only [List.length_cons] at hlength ⊢
        omega
    · simp at h
  · simp at h

/-- The segments of the rest of a path, whose position in the whole path follows from its
    length. -/
def parseSegments (path : String) (text : List Char) : Except Error (List Segment) :=
  match text with
  | [] => .ok []
  | c :: cs =>
    match _h : scanSegment (c :: cs) with
    | .ok (segment, rest) => (parseSegments path rest).map (segment :: ·)
    | .error .shape => .error (.malformedPath path (path.length - (c :: cs).length))
    | .error .literal => .error .malformedJson
    | .error (.digits count) => .error (.tooManyDigits (some count))
termination_by text.length
decreasing_by exact length_lt_of_scanSegment _h

/-- The segments of a path. -/
def parsePath (path : String) : Except Error (List Segment) :=
  match path.toList with
  | c :: text => if c = rootSign then parseSegments path text else .error (.unrootedPath path)
  | [] => .error (.unrootedPath path)

/-- The keys of a path. -/
def pathKeys (path : String) : Except Error (List Key) :=
  (parsePath path).map (·.map Segment.key)

/-- The paths of all strict ancestors of a path, the root excluded, from the root down. -/
def ancestorPaths (path : String) : Except Error (List String) := do
  let keys ← pathKeys path
  return (List.range' 1 (keys.length - 1)).map fun n => pathText (keys.take n)

/-- Whether the first path is that of a strict ancestor of the second. -/
def isAncestor (parent child : String) : Except Error Bool :=
  (ancestorPaths child).map (·.contains parent)

end ItemDelta
