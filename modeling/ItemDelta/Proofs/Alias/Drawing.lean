import ItemDelta.Alias.Basic
import ItemDelta.Proofs.Action

/-!
# Numbers that are drawn

An action on a context draws some numbers of its counter. It comes to an end unless the counter has
come to a number that is too long to be written, and what it has drawn is spent either way. `Draws`
says so of an action, and goes through sequences of actions.

## Main definitions

* `AliasContext.advance` — a context after some draws.
* `Draws` — an action draws so many numbers at most, and does nothing else to the context.

## Main results

* `Draws.nextSuffix` — one number.
* `Draws.bind` — the rule for actions one after the other.
-/

namespace ItemDelta

namespace AliasContext

variable (context : AliasContext)

/-- The context after so many draws. -/
def advance (drawn : Nat) : AliasContext :=
  { context with counter := context.counter + drawn }

@[simp] theorem counter_advance (drawn : Nat) :
    (context.advance drawn).counter = context.counter + drawn := rfl

@[simp] theorem advance_zero : context.advance 0 = context := by
  rw [advance, Int.natCast_zero, Int.add_zero]

@[simp] theorem advance_advance (drawn more : Nat) :
    (context.advance drawn).advance more = context.advance (drawn + more) := by
  rw [advance, counter_advance, Int.add_assoc, ← Int.natCast_add]
  rfl

variable {context}

theorem nextSuffix_of_short (h : isLongInteger context.counter = false) :
    nextSuffix context = .ok (integerText context.counter) (context.advance 1) := by
  rw [nextSuffix, h]
  rfl

theorem nextSuffix_of_long (h : isLongInteger context.counter = true) :
    nextSuffix context = .error (.tooManyDigits none) context := by
  rw [nextSuffix, h]
  rfl

end AliasContext

/-- From a context, an action draws `limit` numbers at most and does nothing else to the context.
    It comes to a result as stated, given how many it has drawn, unless the number that is next
    then is too long to be written. -/
def Draws {α : Type} (action : Drawing α) (context : AliasContext) (limit : Nat)
    (post : α → Nat → Prop) : Prop :=
  ∃ drawn ≤ limit,
    (∃ result, action context = .ok result (context.advance drawn) ∧ post result drawn) ∨
      action context = .error (.tooManyDigits none) (context.advance drawn) ∧
        isLongInteger (context.counter + drawn) = true

namespace Draws

variable {α β : Type} {context : AliasContext} {limit : Nat} {post : α → Nat → Prop}

theorem pure {result : α} (h : post result 0) : Draws (Pure.pure result) context limit post :=
  ⟨0, Nat.zero_le limit, .inl ⟨result, by rw [AliasContext.advance_zero]; rfl, h⟩⟩

theorem mono {mid : α → Nat → Prop} {action : Drawing α} (h : Draws action context limit mid)
    (hpost : ∀ result drawn, mid result drawn → post result drawn) :
    Draws action context limit post := by
  obtain ⟨drawn, hle, hdrawn⟩ := h
  exact ⟨drawn, hle, hdrawn.imp_left fun ⟨result, hrun, hmid⟩ =>
    ⟨result, hrun, hpost result drawn hmid⟩⟩

theorem nextSuffix :
    Draws AliasContext.nextSuffix context 1 fun suffix drawn =>
      suffix = integerText context.counter ∧ drawn = 1 := by
  cases hlong : isLongInteger context.counter with
  | false => exact ⟨1, Nat.le_refl 1, .inl ⟨_, AliasContext.nextSuffix_of_short hlong, rfl, rfl⟩⟩
  | true =>
    refine ⟨0, Nat.zero_le 1, .inr ⟨?_, ?_⟩⟩
    · rw [AliasContext.advance_zero]
      exact AliasContext.nextSuffix_of_long hlong
    · rwa [Int.natCast_zero, Int.add_zero]

/-- The draws of actions one after the other add up. -/
theorem bind {action : Drawing α} {next : α → Drawing β} {more : Nat} {rest : β → Nat → Prop}
    (h : Draws action context limit post)
    (hnext : ∀ result drawn, post result drawn →
      Draws (next result) (context.advance drawn) more fun other further =>
        rest other (drawn + further)) :
    Draws (action >>= next) context (limit + more) rest := by
  obtain ⟨drawn, hle, ⟨result, hrun, hpost⟩ | ⟨hrun, hlong⟩⟩ := h
  · obtain ⟨further, hmore, ⟨other, hrest, hother⟩ | ⟨hrest, hlong⟩⟩ := hnext result drawn hpost
    · refine ⟨drawn + further, Nat.add_le_add hle hmore, .inl ⟨other, ?_, hother⟩⟩
      rw [bind_of_ok hrun, hrest, AliasContext.advance_advance]
    · refine ⟨drawn + further, Nat.add_le_add hle hmore, .inr ⟨?_, ?_⟩⟩
      · rw [bind_of_ok hrun, hrest, AliasContext.advance_advance]
      · rwa [Int.natCast_add, ← Int.add_assoc]
  · exact ⟨drawn, Nat.le_trans hle (Nat.le_add_right limit more), .inr ⟨bind_of_error hrun, hlong⟩⟩

/-- What is made of the result of an action draws nothing more. -/
theorem bind_pure {action : Drawing α} {rest : β → Nat → Prop}
    (h : Draws action context limit post) (f : α → β)
    (hpost : ∀ result drawn, post result drawn → rest (f result) drawn) :
    Draws (action >>= fun result => Pure.pure (f result)) context limit rest := by
  show Draws _ context (limit + 0) rest
  exact h.bind fun result drawn hresult => pure (hpost result drawn hresult)

end Draws

end ItemDelta
