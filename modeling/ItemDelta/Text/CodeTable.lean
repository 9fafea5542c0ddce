/-!
# Tables of code points

A character class is a list of ranges of code points in ascending order, and a case mapping a
list of runs that shift their members by one distance. Looking a character up walks the list
and stops at the first range beyond it, so the answer for ASCII is found at the front.

## Main definitions

* `CodeTable.inRanges` — membership in ascending ranges.
* `CodeTable.inRuns` — membership in ascending runs with a stride.
* `CodeTable.shift?` — the code point that a run maps a member to.
-/

namespace ItemDelta

namespace CodeTable

/-- Whether a code point lies in one of the ranges `(first, last)`, which ascend. -/
def inRanges : List (Nat × Nat) → Nat → Bool
  | [], _ => false
  | (first, last) :: rest, code =>
    if code < first then false else if code ≤ last then true else inRanges rest code

/-- Whether a code point lies in one of the runs `(first, last, stride)`, which ascend: a run
    holds every `stride`-th code point from the first to the last. -/
def inRuns : List (Nat × Nat × Nat) → Nat → Bool
  | [], _ => false
  | (first, last, stride) :: rest, code =>
    if code < first then false
    else if code ≤ last ∧ (code - first) % stride = 0 then true
    else inRuns rest code

/-- The code point that a run `(first, last, stride, distance)` maps a member to, if one of the
    ascending runs holds it. -/
def shift? : List (Nat × Nat × Nat × Int) → Nat → Option Nat
  | [], _ => none
  | (first, last, stride, distance) :: rest, code =>
    if code < first then none
    else if code ≤ last ∧ (code - first) % stride = 0 then some (code + distance).toNat
    else shift? rest code

end CodeTable

end ItemDelta
