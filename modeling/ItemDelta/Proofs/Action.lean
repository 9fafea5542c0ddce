import ItemDelta.Error
import Mathlib.Algebra.GroupWithZero.Nat
import Mathlib.Data.List.Forall2
import Mathlib.Order.Defs.Unbundled

/-!
# Actions on a state

A registration, a step of a builder or a whole compilation is an action on a state that may fail,
and keeps the changes made before its failure. `Leads` says of an action what becomes of the state
in either case, and what else holds if the action succeeds; `FailsAs` says what it fails with if it
does not, and `Settles` which of both is the case, unless it gives up. `Parallel` says of two
actions that they do the same from related states. All of them go through sequences of actions by
the rules below.

## Main definitions

* `Leads` — what an action comes to from a state.
* `Settles` — an action fails with a given fault, or succeeds if there is none, or gives up.
* `FaultsAs`, `FailsAs` — every fault is of some kind.
* `Parallel` — two actions have the same outcome from related states.
* `stateAfter` — the state that an action leaves.
* `succeeds`, `outcome?`, `fault?` — whether it succeeds, with what, and with what it fails.

## Main results

* `Leads.bind`, `Leads.mapM` — the rules for actions one after the other.
* `FailsAs.bind`, `FailsAs.mapM` — the same for faults.
* `Settles.bind`, `Settles.mapM` — of actions one after the other, the first one with a fault fails.
* `Parallel.bind`, `Parallel.mapM` — the rules for two such sequences side by side.
-/

namespace ItemDelta

/-- From a state, an action leads to a related state, whether it fails or not; if it succeeds,
    its result and the state that it leaves are as stated. -/
structure Leads {σ α : Type} (related : σ → σ → Prop) (action : EStateM Error σ α) (s : σ)
    (post : α → σ → Prop) : Prop where
  ok : ∀ result t, action s = .ok result t → related s t ∧ post result t
  error : ∀ fault t, action s = .error fault t → related s t

/-- The state that an action leaves, whether it fails or not. -/
def stateAfter {σ α : Type} (action : EStateM Error σ α) (s : σ) : σ :=
  match action s with
  | .ok _ t => t
  | .error _ t => t

/-- Whether an action succeeds in a state. -/
def succeeds {σ α : Type} (action : EStateM Error σ α) (s : σ) : Bool :=
  match action s with
  | .ok _ _ => true
  | .error _ _ => false

theorem exists_ok_of_succeeds {σ α : Type} {action : EStateM Error σ α} {s : σ}
    (h : succeeds action s = true) : ∃ result, action s = .ok result (stateAfter action s) := by
  rw [succeeds] at h
  rw [stateAfter]
  cases hrun : action s with
  | ok result t => exact ⟨result, rfl⟩
  | error fault t =>
    rw [hrun] at h
    cases h

/-- What an action succeeds with, and the state then. -/
def outcome? {σ α : Type} (action : EStateM Error σ α) (s : σ) : Option (α × σ) :=
  match action s with
  | .ok result t => some (result, t)
  | .error _ _ => none

theorem eq_ok_of_outcome? {σ α : Type} {action : EStateM Error σ α} {s t : σ} {result : α}
    (h : outcome? action s = some (result, t)) : action s = .ok result t := by
  rw [outcome?] at h
  cases hrun : action s with
  | ok x u =>
    rw [hrun] at h
    cases h
    rfl
  | error fault u =>
    rw [hrun] at h
    cases h

/-- What an action fails with, if it does. -/
def fault? {σ α : Type} (action : EStateM Error σ α) (s : σ) : Option Error :=
  match action s with
  | .ok _ _ => none
  | .error fault _ => some fault

theorem exists_error_of_fault? {σ α : Type} {action : EStateM Error σ α} {s : σ} {fault : Error}
    (h : fault? action s = some fault) : ∃ t, action s = .error fault t := by
  rw [fault?] at h
  cases hrun : action s with
  | ok result t =>
    rw [hrun] at h
    cases h
  | error other t =>
    rw [hrun] at h
    cases h
    exact ⟨t, rfl⟩

theorem bind_of_ok {σ α β : Type} {action : EStateM Error σ α} {next : α → EStateM Error σ β}
    {s t : σ} {result : α} (h : action s = .ok result t) :
    (action >>= next) s = next result t := by
  change EStateM.bind action next s = _
  rw [EStateM.bind, h]

theorem bind_of_error {σ α β : Type} {action : EStateM Error σ α} {next : α → EStateM Error σ β}
    {s t : σ} {fault : Error} (h : action s = .error fault t) :
    (action >>= next) s = .error fault t := by
  change EStateM.bind action next s = _
  rw [EStateM.bind, h]

theorem ofExcept_bind_of_ok {σ α β : Type} {outcome : Except Error α} {result : α}
    (h : outcome = .ok result) (next : α → EStateM Error σ β) (s : σ) :
    (ofExcept outcome >>= next) s = next result s := by
  rw [h]
  rfl

theorem ofExcept_bind_of_error {σ α β : Type} {outcome : Except Error α} {fault : Error}
    (h : outcome = .error fault) (next : α → EStateM Error σ β) (s : σ) :
    (ofExcept outcome >>= next) s = .error fault s := by
  rw [h]
  rfl

theorem get_bind {σ β : Type} (next : σ → EStateM Error σ β) (s : σ) :
    (get >>= next) s = next s s := rfl

/-- If two actions one after the other succeed, then each of them does. -/
theorem exists_ok_of_bind {σ α β : Type} {action : EStateM Error σ α}
    {next : α → EStateM Error σ β} {s t : σ} {result : β}
    (h : (action >>= next) s = .ok result t) :
    ∃ x u, action s = .ok x u ∧ next x u = .ok result t := by
  cases hrun : action s with
  | ok x u => exact ⟨x, u, rfl, (bind_of_ok hrun).symm.trans h⟩
  | error fault u => cases (bind_of_error hrun).symm.trans h

/-- The same, where the first of them only looks at an outcome. -/
theorem exists_ok_of_ofExcept_bind {σ α β : Type} {outcome : Except Error α}
    {next : α → EStateM Error σ β} {s t : σ} {result : β}
    (h : (ofExcept outcome >>= next) s = .ok result t) :
    ∃ x, outcome = .ok x ∧ next x s = .ok result t := by
  cases outcome with
  | ok x => exact ⟨x, rfl, h⟩
  | error fault => cases h

theorem eq_ok_of_toOption {α : Type} {x : Except Error α} {a : α} (h : x.toOption = some a) :
    x = .ok a := by
  cases x with
  | error fault => cases h
  | ok b => exact congrArg Except.ok (Option.some.inj h)

/-- Of outcomes one after the other that come to a result, the first one has a result too. -/
theorem exists_of_bind_eq_ok {α β : Type} {x : Except Error α} {f : α → Except Error β} {b : β}
    (h : x.bind f = .ok b) : ∃ a, x = .ok a ∧ f a = .ok b := by
  cases x with
  | error error => cases h
  | ok a => exact ⟨a, rfl, h⟩

theorem exists_of_map_eq_ok {α β : Type} {x : Except Error α} {f : α → β} {b : β}
    (h : x.map f = .ok b) : ∃ a, x = .ok a ∧ b = f a := by
  cases x with
  | error error => cases h
  | ok a => exact ⟨a, rfl, (Except.ok.inj h).symm⟩

/-- Actions one after the other leave what the second of them leaves, if there is one. -/
theorem stateAfter_bind {σ α β : Type} (action : EStateM Error σ α)
    (next : α → EStateM Error σ β) (s : σ) :
    stateAfter (action >>= next) s =
      match action s with
      | .ok x t => stateAfter (next x) t
      | .error _ t => t := by
  rw [stateAfter]
  cases hrun : action s with
  | ok x t =>
    rw [bind_of_ok hrun]
    rfl
  | error fault t => rw [bind_of_error hrun]

theorem stateAfter_bind_pure {σ α β : Type} (action : EStateM Error σ α) (f : α → β) (s : σ) :
    stateAfter (action >>= fun x => pure (f x)) s = stateAfter action s := by
  rw [stateAfter_bind, stateAfter]
  cases action s <;> rfl

theorem stateAfter_eq {σ α : Type} {action : EStateM Error σ α} {s t : σ} {result : α}
    (h : action s = .ok result t) : stateAfter action s = t := by
  rw [stateAfter, h]

namespace Leads

variable {σ α β : Type} {related : σ → σ → Prop} {s : σ}

theorem of_stateAfter {action : EStateM Error σ α} (h : related s (ItemDelta.stateAfter action s)) :
    Leads related action s fun result t => action s = .ok result t where
  ok result t hrun := by
    rw [stateAfter_eq hrun] at h
    exact ⟨h, hrun⟩
  error fault t hrun := by
    rwa [ItemDelta.stateAfter, hrun] at h

theorem of_ok {action : EStateM Error σ α} {post : α → σ → Prop} {result : α} {t : σ}
    (hrun : action s = .ok result t) (hrelated : related s t) (hpost : post result t) :
    Leads related action s post where
  ok other u heq := by
    cases heq.symm.trans hrun
    exact ⟨hrelated, hpost⟩
  error fault u heq := by cases heq.symm.trans hrun

theorem of_error {action : EStateM Error σ α} {post : α → σ → Prop} {fault : Error} {t : σ}
    (hrun : action s = .error fault t) (hrelated : related s t) : Leads related action s post where
  ok result u heq := by cases heq.symm.trans hrun
  error other u heq := by
    cases heq.symm.trans hrun
    exact hrelated

theorem mono {action : EStateM Error σ α} {mid post : α → σ → Prop}
    (h : Leads related action s mid)
    (hpost : ∀ result t, related s t → mid result t → post result t) :
    Leads related action s post where
  ok result t heq := by
    obtain ⟨hrelated, hmid⟩ := h.ok result t heq
    exact ⟨hrelated, hpost result t hrelated hmid⟩
  error := h.error

theorem self {action : EStateM Error σ α} {post : α → σ → Prop}
    (h : Leads related action s post) :
    Leads related action s fun result t => action s = .ok result t ∧ post result t where
  ok result t heq := ⟨(h.ok result t heq).1, heq, (h.ok result t heq).2⟩
  error := h.error

theorem stateAfter {action : EStateM Error σ α} {post : α → σ → Prop}
    (h : Leads related action s post) : related s (stateAfter action s) := by
  rw [ItemDelta.stateAfter]
  cases hrun : action s with
  | ok result t => exact (h.ok result t hrun).1
  | error fault t => exact h.error fault t hrun

theorem get {next : σ → EStateM Error σ β} {post : β → σ → Prop}
    (h : Leads related (next s) s post) : Leads related (MonadState.get >>= next) s post :=
  ⟨h.ok, h.error⟩

theorem modifyGet {step : σ → α × σ} {post : α → σ → Prop} (hrelated : related s (step s).2)
    (hpost : post (step s).1 (step s).2) :
    Leads related (MonadStateOf.modifyGet step) s post :=
  .of_ok rfl hrelated hpost

theorem pure [Std.Refl related] {result : α} {post : α → σ → Prop} (h : post result s) :
    Leads related (Pure.pure result) s post :=
  .of_ok rfl (Std.Refl.refl s) h

theorem ofExcept [Std.Refl related] (outcome : Except Error α) :
    Leads related (ofExcept outcome) s fun result t => t = s ∧ outcome = .ok result := by
  cases outcome with
  | ok result => exact .of_ok rfl (Std.Refl.refl s) ⟨rfl, rfl⟩
  | error fault => exact .of_error rfl (Std.Refl.refl s)

theorem bind [IsTrans σ related] {action : EStateM Error σ α} {next : α → EStateM Error σ β}
    {mid : α → σ → Prop} {post : β → σ → Prop} (h : Leads related action s mid)
    (hnext : ∀ result t, related s t → mid result t → Leads related (next result) t post) :
    Leads related (action >>= next) s post := by
  cases hrun : action s with
  | ok result t =>
    have hbind : (action >>= next) s = next result t := bind_of_ok hrun
    obtain ⟨hrelated, hmid⟩ := h.ok result t hrun
    have hrest := hnext result t hrelated hmid
    constructor
    · intro other u heq
      obtain ⟨hrelated', hpost⟩ := hrest.ok other u (hbind.symm.trans heq)
      exact ⟨IsTrans.trans s t u hrelated hrelated', hpost⟩
    · intro fault u heq
      exact IsTrans.trans s t u hrelated (hrest.error fault u (hbind.symm.trans heq))
  | error fault t => exact .of_error (bind_of_error hrun) (h.error fault t hrun)

/-- What each of several actions establishes for good holds of all their results. -/
theorem mapM [Std.Refl related] [IsTrans σ related] {action : α → EStateM Error σ β}
    {post : α → β → σ → Prop} {xs : List α}
    (hkeep : ∀ x y t u, related t u → post x y t → post x y u)
    (h : ∀ x ∈ xs, ∀ t, related s t → Leads related (action x) t (post x)) :
    Leads related (xs.mapM action) s fun ys t => List.Forall₂ (fun y x => post x y t) ys xs := by
  induction xs generalizing s with
  | nil => exact .pure .nil
  | cons x xs ih =>
    rw [List.mapM_cons]
    refine .bind (h x List.mem_cons_self s (Std.Refl.refl s)) fun y t hst hy => ?_
    refine .bind (ih fun x' hx' u htu =>
      h x' (List.mem_cons_of_mem x hx') u (IsTrans.trans s t u hst htu)) fun ys u htu hys => ?_
    exact .pure (.cons (hkeep x y t u htu hy) hys)

/-- If each of several actions leads to related states, then so do all of them in a row. -/
theorem mapM_trivial [Std.Refl related] [IsTrans σ related] {action : α → EStateM Error σ β}
    {xs : List α} (h : ∀ x ∈ xs, ∀ t, Leads related (action x) t fun _ _ => True) :
    Leads related (xs.mapM action) s fun _ _ => True := by
  have htrivial : ∀ (x : α) (y : β) (t u : σ), related t u → True → True := fun _ _ _ _ _ h => h
  exact (mapM htrivial fun x hx t _ => h x hx t).mono fun _ _ _ _ => trivial

end Leads

/-! ### The first fault -/

/-- From a state, an action succeeds only if it has no fault, and leaves a state as stated then. It
    fails with the fault that it has, or where it gives up. -/
structure Settles {σ α : Type} (givesUp : Error → σ → Prop) (action : EStateM Error σ α) (s : σ)
    (fault : Option Error) (post : σ → Prop) : Prop where
  ok : ∀ result t, action s = .ok result t → fault = none ∧ post t
  error : ∀ refusal t, action s = .error refusal t → fault = some refusal ∨ givesUp refusal t

namespace Settles

variable {σ α β : Type} {givesUp : Error → σ → Prop} {s : σ} {fault other : Option Error}
  {mid post : σ → Prop}

theorem of_ok {action : EStateM Error σ α} {result : α} {t : σ} (hrun : action s = .ok result t)
    (h : post t) : Settles givesUp action s none post where
  ok y u heq := by
    cases heq.symm.trans hrun
    exact ⟨rfl, h⟩
  error refusal u heq := by cases heq.symm.trans hrun

theorem of_error {action : EStateM Error σ α} {refusal : Error} {t : σ}
    (hrun : action s = .error refusal t) (h : fault = some refusal ∨ givesUp refusal t) :
    Settles givesUp action s fault post where
  ok y u heq := by cases heq.symm.trans hrun
  error refusal' u heq := by
    cases heq.symm.trans hrun
    exact h

theorem pure (result : α) (h : post s) : Settles givesUp (Pure.pure result) s none post :=
  of_ok rfl h

theorem modifyGet {step : σ → α × σ} (h : post (step s).2) :
    Settles givesUp (MonadStateOf.modifyGet step) s none post :=
  of_ok rfl h

theorem get {next : σ → EStateM Error σ β} (h : Settles givesUp (next s) s fault post) :
    Settles givesUp (MonadState.get >>= next) s fault post := ⟨h.ok, h.error⟩

theorem ofExcept {outcome : Except Error α} {result : α} {next : α → EStateM Error σ β}
    (houtcome : outcome = .ok result) (h : Settles givesUp (next result) s fault post) :
    Settles givesUp (ofExcept outcome >>= next) s fault post := by
  rw [houtcome]
  exact ⟨h.ok, h.error⟩

/-- Of two actions one after the other, the second can fail only where the first has not. -/
theorem bind {action : EStateM Error σ α} {next : α → EStateM Error σ β}
    (h : Settles givesUp action s fault mid)
    (hnext : ∀ result t, mid t → Settles givesUp (next result) t other post) :
    Settles givesUp (action >>= next) s (fault.or other) post := by
  cases hrun : action s with
  | ok result t =>
    obtain ⟨rfl, ht⟩ := h.ok result t hrun
    have hbind : (action >>= next) s = next result t := bind_of_ok hrun
    obtain ⟨hok, herror⟩ := hnext result t ht
    exact ⟨fun y u heq => hok y u (hbind.symm.trans heq),
      fun refusal u heq => herror refusal u (hbind.symm.trans heq)⟩
  | error refusal t =>
    refine of_error (bind_of_error hrun) ((h.error refusal t hrun).imp_left ?_)
    rintro rfl
    rfl

/-- The same, where the second one has no fault. -/
theorem bind_none {action : EStateM Error σ α} {next : α → EStateM Error σ β}
    (h : Settles givesUp action s fault mid)
    (hnext : ∀ result t, mid t → Settles givesUp (next result) t none post) :
    Settles givesUp (action >>= next) s fault post :=
  Option.or_none (o := fault) ▸ h.bind hnext

/-- Of several actions in a row, the first one with a fault is the one that fails, as long as the
    cost of each can be afforded. -/
theorem mapM {action : α → EStateM Error σ β} {affords : Nat → σ → Prop} {cost : α → Nat}
    {faultOf : α → Option Error} {xs : List α} {left : Nat}
    (h : ∀ x ∈ xs, ∀ left t, affords (cost x + left) t →
      Settles givesUp (action x) t (faultOf x) (affords left))
    (hs : affords ((xs.map cost).sum + left) s) :
    Settles givesUp (xs.mapM action) s (xs.findSome? faultOf) (affords left) := by
  induction xs generalizing s with
  | nil =>
    rw [List.map_nil, List.sum_nil, Nat.zero_add] at hs
    exact .pure [] hs
  | cons x xs ih =>
    have hor : (x :: xs).findSome? faultOf = (faultOf x).or (xs.findSome? faultOf) := by
      rw [List.findSome?_cons]
      cases faultOf x <;> rfl
    rw [List.map_cons, List.sum_cons, Nat.add_assoc] at hs
    rw [List.mapM_cons, hor]
    refine (h x List.mem_cons_self _ s hs).bind fun y t ht => ?_
    exact (ih (fun x' hx' => h x' (List.mem_cons_of_mem x hx')) ht).bind_none
      fun ys u hu => .pure _ hu

/-- What never gives up succeeds, if it has no fault. -/
theorem exists_ok {action : EStateM Error σ α}
    (h : Settles (fun _ _ => False) action s none post) :
    ∃ result t, action s = .ok result t ∧ post t := by
  cases hrun : action s with
  | ok result t => exact ⟨result, t, rfl, (h.ok result t hrun).2⟩
  | error refusal t =>
    rcases h.error refusal t hrun with hfault | hgivesUp
    · cases hfault
    · exact hgivesUp.elim

end Settles

/-! ### Faults -/

/-- If an outcome is a fault, then it is one of some kind. -/
structure FaultsAs {α : Type} (kind : Error → Prop) (outcome : Except Error α) : Prop where
  of_eq : ∀ fault, outcome = .error fault → kind fault

/-- Whenever an action fails, its fault is one of some kind. -/
structure FailsAs {σ α : Type} (kind : Error → Prop) (action : EStateM Error σ α) : Prop where
  of_eq : ∀ s fault t, action s = .error fault t → kind fault

namespace FaultsAs

variable {α β : Type} {kind : Error → Prop}

theorem ok (result : α) : FaultsAs kind (.ok result) := ⟨nofun⟩

theorem error {fault : Error} (h : kind fault) : FaultsAs kind (.error fault : Except Error α) where
  of_eq := by
    rintro _ ⟨⟩
    exact h

theorem ite {p : Prop} [Decidable p] {outcome other : Except Error α}
    (h : FaultsAs kind outcome) (h' : FaultsAs kind other) :
    FaultsAs kind (if p then outcome else other) := by
  split
  · exact h
  · exact h'

theorem bind {outcome : Except Error α} {next : α → Except Error β} (h : FaultsAs kind outcome)
    (hnext : ∀ result, FaultsAs kind (next result)) : FaultsAs kind (outcome >>= next) := by
  cases outcome with
  | ok result => exact hnext result
  | error fault => exact error (h.of_eq fault rfl)

theorem bindOption {outcome : Except Error (Option α)} {next : Option α → Except Error β}
    (h : FaultsAs kind outcome) (hnone : FaultsAs kind (next none))
    (hsome : ∀ x, FaultsAs kind (next (some x))) : FaultsAs kind (outcome >>= next) := by
  refine h.bind fun result => ?_
  cases result with
  | none => exact hnone
  | some x => exact hsome x

theorem map {outcome : Except Error α} (f : α → β) (h : FaultsAs kind outcome) :
    FaultsAs kind (outcome.map f) := by
  cases outcome with
  | ok result => exact ok (f result)
  | error fault => exact error (h.of_eq fault rfl)

theorem mapM {f : α → Except Error β} (h : ∀ x, FaultsAs kind (f x)) (xs : List α) :
    FaultsAs kind (xs.mapM f) := by
  induction xs with
  | nil => exact ok []
  | cons x xs ih =>
    rw [List.mapM_cons]
    exact (h x).bind fun y => ih.bind fun ys => ok (y :: ys)

theorem filterM {f : α → Except Error Bool} (h : ∀ x, FaultsAs kind (f x)) (xs : List α) :
    FaultsAs kind (xs.filterM f) := by
  have hkept : ∀ kept, FaultsAs kind (xs.filterAuxM f kept) := by
    induction xs with
    | nil => exact ok
    | cons x xs ih =>
      intro kept
      rw [List.filterAuxM]
      exact (h x).bind fun keep => ih _
  exact (hkept []).bind fun kept => ok kept.reverse

end FaultsAs

namespace FailsAs

variable {σ α β : Type} {kind : Error → Prop}

theorem pure (result : α) : FailsAs kind (Pure.pure result : EStateM Error σ α) := ⟨nofun⟩

theorem ofExcept {outcome : Except Error α} (h : FaultsAs kind outcome) :
    FailsAs kind (ofExcept outcome : EStateM Error σ α) where
  of_eq s fault t hrun := by
    cases outcome with
    | ok result => cases hrun
    | error other =>
      cases hrun
      exact h.of_eq _ rfl

theorem get {next : σ → EStateM Error σ β} (h : ∀ s, FailsAs kind (next s)) :
    FailsAs kind (MonadState.get >>= next) where
  of_eq s fault t hrun := (h s).of_eq s fault t hrun

theorem modifyGet (step : σ → α × σ) :
    FailsAs kind (MonadStateOf.modifyGet step : EStateM Error σ α) := ⟨nofun⟩

theorem bind {action : EStateM Error σ α} {next : α → EStateM Error σ β}
    (h : FailsAs kind action) (hnext : ∀ result, FailsAs kind (next result)) :
    FailsAs kind (action >>= next) where
  of_eq s fault t hrun := by
    cases haction : action s with
    | ok result u => exact (hnext result).of_eq u fault t ((bind_of_ok haction).symm.trans hrun)
    | error other u =>
      cases (bind_of_error haction).symm.trans hrun
      exact h.of_eq s _ _ haction

theorem mapM {action : α → EStateM Error σ β} (h : ∀ x, FailsAs kind (action x)) (xs : List α) :
    FailsAs kind (xs.mapM action) := by
  induction xs with
  | nil => exact pure []
  | cons x xs ih =>
    rw [List.mapM_cons]
    exact (h x).bind fun y => ih.bind fun ys => pure (y :: ys)

end FailsAs

/-! ### Two actions side by side -/

/-- Two outcomes with the same result, or the same fault, that leave related states. -/
inductive SameOutcome {σ τ α : Type} (related : σ → τ → Prop) :
    EStateM.Result Error σ α → EStateM.Result Error τ α → Prop where
  | ok {s : σ} {t : τ} (result : α) : related s t →
      SameOutcome related (.ok result s) (.ok result t)
  | error {s : σ} {t : τ} (fault : Error) : related s t →
      SameOutcome related (.error fault s) (.error fault t)

/-- From related states, two actions have the same outcome. -/
def Parallel {σ τ α : Type} (related : σ → τ → Prop) (action : EStateM Error σ α)
    (other : EStateM Error τ α) : Prop :=
  ∀ s t, related s t → SameOutcome related (action s) (other t)

namespace Parallel

variable {σ τ α β : Type} {related : σ → τ → Prop}

theorem pure (result : α) : Parallel related (Pure.pure result) (Pure.pure result) :=
  fun _ _ h => .ok result h

theorem ofExcept (outcome : Except Error α) :
    Parallel related (ofExcept outcome) (ofExcept outcome) := by
  intro s t h
  cases outcome with
  | ok result => exact .ok result h
  | error fault => exact .error fault h

theorem get {next : σ → EStateM Error σ β} {other : τ → EStateM Error τ β}
    (h : ∀ s t, related s t → SameOutcome related (next s s) (other t t)) :
    Parallel related (MonadState.get >>= next) (MonadState.get >>= other) := h

theorem modifyGet {step : σ → α × σ} {other : τ → α × τ}
    (h : ∀ s t, related s t → (step s).1 = (other t).1 ∧ related (step s).2 (other t).2) :
    Parallel related (MonadStateOf.modifyGet step) (MonadStateOf.modifyGet other) := by
  intro s t hst
  obtain ⟨hresult, hrelated⟩ := h s t hst
  change SameOutcome related (.ok (step s).1 (step s).2) (.ok (other t).1 (other t).2)
  rw [← hresult]
  exact .ok _ hrelated

theorem bind {action : EStateM Error σ α} {other : EStateM Error τ α}
    {next : α → EStateM Error σ β} {next' : α → EStateM Error τ β}
    (h : Parallel related action other) (hnext : ∀ result, Parallel related (next result)
      (next' result)) : Parallel related (action >>= next) (other >>= next') := by
  intro s t hst
  have hfirst := h s t hst
  change SameOutcome related (EStateM.bind action next s) (EStateM.bind other next' t)
  rw [EStateM.bind, EStateM.bind]
  generalize action s = first, other t = second at hfirst
  cases hfirst with
  | ok result hrelated => exact hnext result _ _ hrelated
  | error fault hrelated => exact .error fault hrelated

theorem mapM {action : α → EStateM Error σ β} {other : α → EStateM Error τ β}
    (h : ∀ x, Parallel related (action x) (other x)) (xs : List α) :
    Parallel related (xs.mapM action) (xs.mapM other) := by
  induction xs with
  | nil => exact .pure []
  | cons x xs ih =>
    rw [List.mapM_cons, List.mapM_cons]
    exact .bind (h x) fun y => .bind ih fun ys => .pure (y :: ys)

theorem exists_ok {action : EStateM Error σ α} {other : EStateM Error τ α} {s s' : σ} {t : τ}
    {result : α} (h : Parallel related action other) (hst : related s t)
    (hrun : action s = .ok result s') : ∃ t', other t = .ok result t' ∧ related s' t' := by
  have houtcome := h s t hst
  rw [hrun] at houtcome
  generalize hother : other t = outcome at houtcome
  cases houtcome with
  | ok _ hrelated => exact ⟨_, rfl, hrelated⟩

end Parallel

end ItemDelta
