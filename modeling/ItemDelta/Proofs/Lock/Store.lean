import ItemDelta.Proofs.Lock.Version

/-!
# Clients of one item

A store holds one item. Clients read it, compute expressions from what they read, and offer these
to the store in any order and as late as they like. The store resolves the condition of an
expression on the item it holds at that moment, and writes only if it holds.

## Main definitions

* `Store` — the item, all that was read of it, and the writes that went through.
* `Store.Step` — a read, a write that goes through, or one that is refused.
* `Store.Reachable` — the stores that any interleaving of steps leads to.
* `Store.Invariant` — what every step preserves.

## Main results

* `Store.Invariant.exists_swaps` — an attempt goes through only if its snapshot is the item.
* `Store.Invariant.step` — every step preserves the invariant.
* `Store.isSerial_of_reachable` — no update is lost, in any interleaving.
-/

namespace ItemDelta

/-- A write that went through: what its client had read, the item that it replaced, and the one
    that it left. -/
structure Write where
  snapshot : Value
  replaced : Value
  written : Value

/-- A store of one item: the item, the snapshots that clients read, and the writes that went
    through, the last one first. -/
structure Store (Client : Type) where
  item : Value
  reads : List (Client × Value)
  writes : List Write

namespace Store

variable {Client : Type}

/-- A store that nobody has used. -/
def start (Client : Type) (item : Value) : Store Client := ⟨item, [], []⟩

/-- The store after a client has read it. -/
def read (s : Store Client) (client : Client) : Store Client :=
  { s with reads := (client, s.item) :: s.reads }

/-- The store after a write that was computed from a snapshot. -/
def write (s : Store Client) (snapshot written : Value) : Store Client :=
  { s with item := written, writes := ⟨snapshot, s.item, written⟩ :: s.writes }

/-- One step of a client. A write that goes through may leave any item that holds the values which
    are assigned to its version; one that is refused leaves all as it is. -/
inductive Step : Store Client → Store Client → Prop where
  | read (s : Store Client) (client : Client) : Step s (s.read client)
  | accept {s : Store Client} {client : Client} {snapshot written : Value}
      {expression : Expression} {meaning : Meaning} : (client, snapshot) ∈ s.reads →
      Attempt snapshot expression → expression.meaning = some meaning →
      meaning.admits s.item = true → written.IsDocument →
      (∀ w, (versionKeys, w) ∈ meaning.assignments → written.get? versionKeys = some w) →
      Step s (s.write snapshot written)
  | refuse {s : Store Client} {client : Client} {snapshot : Value} {expression : Expression}
      {meaning : Meaning} : (client, snapshot) ∈ s.reads → Attempt snapshot expression →
      expression.meaning = some meaning → meaning.admits s.item = false → Step s s

/-- The stores that any interleaving of steps leads to from an item. -/
inductive Reachable (item : Value) : Store Client → Prop where
  | start : Reachable item (start Client item)
  | step {s t : Store Client} : Reachable item s → Step s t → Reachable item t

end Store

/-! ### Versions in time -/

/-- A version comes before another one if it is absent or smaller. -/
def Precedes (k n : Option Int) : Prop := ∃ m, n = some m ∧ ∀ i, k = some i → i < m

section Precedes

variable {k n : Option Int}

theorem Precedes.ne (h : Precedes k n) : k ≠ n := by
  obtain ⟨m, rfl, hlt⟩ := h
  intro hk
  exact Int.lt_irrefl m (hlt m hk)

theorem precedes_successor (n : Option Int) : Precedes n (some (successor n)) := by
  refine ⟨successor n, rfl, ?_⟩
  rintro i rfl
  show i < i + 1
  omega

theorem Precedes.trans {m : Option Int} (h : Precedes k n) (h' : Precedes n m) :
    Precedes k m := by
  obtain ⟨j, rfl, hk⟩ := h
  obtain ⟨l, rfl, hj⟩ := h'
  refine ⟨l, rfl, fun i hi => ?_⟩
  have hlt := hk i hi
  have hlt' := hj j rfl
  omega

end Precedes

/-! ### The invariant -/

namespace Store

variable {Client : Type} {item : Value} {s t : Store Client} {n : Option Int}

/-- The history of a store from an item on has no lost update: each write was computed from the
    item that it replaced, which is the one that the write before it left, and the versions
    advance by one with each write. -/
structure IsSerial (item : Value) (s : Store Client) : Prop where
  current : ∀ w ∈ s.writes, w.snapshot = w.replaced
  linked : s.item :: s.writes.map Write.replaced = s.writes.map Write.written ++ [item]
  advancing : ∀ w ∈ s.writes, ∃ k, w.replaced.HasVersion k ∧
    w.written.HasVersion (some (successor k))
  ascending : s.writes.Pairwise fun later earlier => ∃ i j,
    earlier.written.HasVersion (some i) ∧ later.written.HasVersion (some j) ∧ i < j

/-- The version of the item is the last one written, and a snapshot is the item itself unless its
    version comes before that of the item. -/
structure Invariant (item : Value) (s : Store Client) (n : Option Int) : Prop
    extends s.IsSerial item where
  document : s.item.IsDocument
  version : s.item.HasVersion n
  reads : ∀ client snapshot, (client, snapshot) ∈ s.reads → snapshot.IsDocument ∧
    (snapshot = s.item ∨ ∃ k, snapshot.HasVersion k ∧ Precedes k n)
  latest : ∀ w ∈ s.writes, ∃ i j, w.written.HasVersion (some i) ∧ n = some j ∧ i ≤ j

theorem Invariant.start (hitem : item.IsDocument) (hversion : item.HasVersion n) :
    (start Client item).Invariant item n where
  current := by simp [Store.start]
  linked := rfl
  advancing := by simp [Store.start]
  ascending := .nil
  document := hitem
  version := hversion
  reads := by simp [Store.start]
  latest := by simp [Store.start]

/-- What a client computes from a snapshot swaps the version of the snapshot, and goes through only
    if the snapshot is the item. -/
theorem Invariant.exists_swaps (h : s.Invariant item n) {client : Client} {snapshot : Value}
    {expression : Expression} (hread : (client, snapshot) ∈ s.reads)
    (hattempt : Attempt snapshot expression) :
    ∃ meaning k, expression.meaning = some meaning ∧ meaning.Swaps k ∧ snapshot.HasVersion k ∧
      (meaning.admits s.item = true ↔ snapshot = s.item) := by
  obtain ⟨hdocument, hsnapshot⟩ := h.reads client snapshot hread
  rcases hsnapshot with rfl | ⟨k, hk, hprecedes⟩
  · obtain ⟨meaning, hmeaning, hswaps⟩ := hattempt.exists_swaps h.document h.version
    refine ⟨meaning, n, hmeaning, hswaps, h.version, ?_⟩
    simp [hswaps.admits_iff h.version]
  · obtain ⟨meaning, hmeaning, hswaps⟩ := hattempt.exists_swaps hdocument hk
    refine ⟨meaning, k, hmeaning, hswaps, hk, ?_⟩
    rw [hswaps.admits_iff h.version]
    constructor
    · intro hn
      exact absurd hn.symm hprecedes.ne
    · rintro rfl
      exact h.version.unique hk

theorem Invariant.read (h : s.Invariant item n) (client : Client) :
    (s.read client).Invariant item n := by
  refine ⟨⟨h.current, h.linked, h.advancing, h.ascending⟩, h.document, h.version, ?_, h.latest⟩
  intro other snapshot hread
  rcases List.mem_cons.mp hread with heq | hread
  · cases heq
    exact ⟨h.document, .inl rfl⟩
  · exact h.reads other snapshot hread

/-- A write that was computed from the item goes through. -/
theorem Invariant.accepts (h : s.Invariant item n) {client : Client} {written : Value}
    {expression : Expression} (hread : (client, s.item) ∈ s.reads)
    (hattempt : Attempt s.item expression) (hwritten : written.IsDocument)
    (hversion : written.HasVersion (some (successor n))) :
    Step s (s.write s.item written) := by
  obtain ⟨meaning, k, hmeaning, hswaps, hk, hadmits⟩ := h.exists_swaps hread hattempt
  cases hk.unique h.version
  refine .accept hread hattempt hmeaning (hadmits.mpr rfl) hwritten fun w hw => ?_
  rw [(hswaps.assigns w).mp hw]
  exact hversion

/-- A write that was computed from anything else is refused. -/
theorem Invariant.refuses (h : s.Invariant item n) {client : Client} {snapshot : Value}
    {expression : Expression} (hread : (client, snapshot) ∈ s.reads)
    (hattempt : Attempt snapshot expression) (hstale : snapshot ≠ s.item) :
    ∃ meaning, expression.meaning = some meaning ∧ meaning.admits s.item = false := by
  obtain ⟨meaning, k, hmeaning, -, -, hadmits⟩ := h.exists_swaps hread hattempt
  refine ⟨meaning, hmeaning, ?_⟩
  by_contra hadmitted
  exact hstale (hadmits.mp ((Bool.not_eq_false _).mp hadmitted))

/-- A write of the next version makes all that was read before a snapshot of the past. -/
theorem Invariant.write (h : s.Invariant item n) {written : Value} (hwritten : written.IsDocument)
    (hversion : written.HasVersion (some (successor n))) :
    (s.write s.item written).Invariant item (some (successor n)) := by
  constructor
  · constructor
    · intro w hw
      rcases List.mem_cons.mp hw with rfl | hw
      · rfl
      · exact h.current w hw
    · show written :: s.item :: s.writes.map Write.replaced = _
      rw [h.linked]
      rfl
    · intro w hw
      rcases List.mem_cons.mp hw with rfl | hw
      · exact ⟨n, h.version, hversion⟩
      · exact h.advancing w hw
    · refine List.pairwise_cons.mpr ⟨fun w hw => ?_, h.ascending⟩
      obtain ⟨i, j, hi, rfl, hle⟩ := h.latest w hw
      exact ⟨i, j + 1, hi, hversion, by omega⟩
  · exact hwritten
  · exact hversion
  · intro client snapshot hread
    obtain ⟨hdocument, hsnapshot⟩ := h.reads client snapshot hread
    refine ⟨hdocument, .inr ?_⟩
    rcases hsnapshot with rfl | ⟨k, hk, hprecedes⟩
    · exact ⟨n, h.version, precedes_successor n⟩
    · exact ⟨k, hk, hprecedes.trans (precedes_successor n)⟩
  · intro w hw
    rcases List.mem_cons.mp hw with rfl | hw
    · exact ⟨successor n, successor n, hversion, rfl, Int.le_refl _⟩
    · obtain ⟨i, j, hi, rfl, hle⟩ := h.latest w hw
      exact ⟨i, j + 1, hi, rfl, by omega⟩

/-- Every step preserves the invariant, with the same version or the next one. -/
theorem Invariant.step (h : s.Invariant item n) (hstep : Step s t) : ∃ m, t.Invariant item m := by
  cases hstep with
  | read client => exact ⟨n, h.read client⟩
  | accept hread hattempt hmeaning hadmits hwritten hassigned =>
    obtain ⟨meaning, k, hresolved, hswaps, hsnapshot, hadmits_iff⟩ :=
      h.exists_swaps hread hattempt
    cases hresolved.symm.trans hmeaning
    cases hadmits_iff.mp hadmits
    cases hsnapshot.unique h.version
    have hnext := hassigned _ ((hswaps.assigns _).mpr rfl)
    exact ⟨some (successor n), h.write hwritten hnext⟩
  | refuse => exact ⟨n, h⟩

theorem Reachable.exists_invariant (hitem : item.IsDocument) (hversion : item.HasVersion n)
    (h : Reachable item s) : ∃ m, s.Invariant item m := by
  induction h with
  | start => exact ⟨n, .start hitem hversion⟩
  | step _ hstep ih =>
    obtain ⟨m, hinvariant⟩ := ih
    exact hinvariant.step hstep

/-- No interleaving of clients loses an update of an item whose version is an integer or absent. -/
theorem isSerial_of_reachable (hitem : item.IsDocument) (hversion : item.HasVersion n)
    (h : Reachable item s) : s.IsSerial item := by
  obtain ⟨m, hinvariant⟩ := h.exists_invariant hitem hversion
  exact hinvariant.toIsSerial

/-- Two clients read an item without a version. One takes the lock; the other one is refused, reads
    again and writes. -/
theorem isSerial_of_refused_client : ∃ s : Store String,
    Reachable (.ofNamed [("n", .int 0)]) s ∧
      s.item = .ofNamed [("n", .int 5), ("version", .int 2)] ∧ s.writes.length = 2 ∧
      s.IsSerial (.ofNamed [("n", .int 0)]) := by
  have hfirst : (Value.ofNamed [("n", .int 0)]).IsDocument := ⟨rfl, by decide, by decide⟩
  have hlocked : (Value.ofNamed [("version", .int 1)]).IsDocument := ⟨rfl, by decide, by decide⟩
  have hnext : (Value.ofNamed [("version", .int 2)]).IsDocument := ⟨rfl, by decide, by decide⟩
  have hlast : (Value.ofNamed [("n", .int 5), ("version", .int 2)]).IsDocument :=
    ⟨rfl, by decide, by decide⟩
  -- What the clients compute: a lock each from the first item, and a change from the locked one.
  obtain ⟨lock, hlock⟩ := exists_ok_of_succeeds (show succeeds (lockExpression
    (.ofNamed [("n", .int 0)]) defaultVersionPath none (.text "=") false) .fresh = true by
      decide +kernel)
  obtain ⟨change, hchange⟩ := exists_ok_of_succeeds (show succeeds (versionedExpression
    (.ofNamed [("version", .int 1)]) (.ofNamed [("version", .int 2)])
    ⟨defaultVersionPath, .text "=", none, true⟩ false) .fresh = true by decide +kernel)
  have hattempt : Attempt (.ofNamed [("n", .int 0)]) lock := .lock hlock (by decide +kernel)
  have hretry : Attempt (.ofNamed [("version", .int 1)]) change :=
    .update hnext rfl rfl hchange (by decide +kernel)
  -- Both clients read the item, and one of them writes.
  have hinitial : (Value.ofNamed [("n", .int 0)]).HasVersion none := rfl
  have hversion : (Value.ofNamed [("version", .int 1)]).HasVersion (some (successor none)) := rfl
  have hstart : Reachable (.ofNamed [("n", .int 0)]) (start String (.ofNamed [("n", .int 0)])) :=
    .start
  have hinvariant : (start String (.ofNamed [("n", .int 0)])).Invariant _ none :=
    .start hfirst hinitial
  have hreads := (hinvariant.read "one").read "other"
  have haccepted := hreads.accepts (List.mem_cons_of_mem _ List.mem_cons_self) hattempt hlocked
    hversion
  have hwritten := hreads.write hlocked hversion
  have hstored := ((hstart.step (.read _ "one")).step (.read _ "other")).step haccepted
  -- The other one comes too late, reads what is there now, and writes.
  obtain ⟨meaning, hmeaning, hrefused⟩ :=
    hwritten.refuses List.mem_cons_self hattempt (by decide)
  have hlate := hstored.step (.refuse List.mem_cons_self hattempt hmeaning hrefused)
  have hagain := (hwritten.read "other").accepts List.mem_cons_self hretry hlast rfl
  have hdone := (hlate.step (.read _ "other")).step hagain
  exact ⟨_, hdone, rfl, rfl, isSerial_of_reachable hfirst hinitial hdone⟩

end Store

end ItemDelta
