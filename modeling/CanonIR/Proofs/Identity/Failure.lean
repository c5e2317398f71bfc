import CanonIR.Proofs.Binding.Operation
import CanonIR.Proofs.Identity.Interleaving
import CanonIR.Proofs.Memory.Recorder

/-!
Requests that fail. A request that only looks may fail at any of its steps, also when it has made
wrappers on the way. Whatever it has done, all look-ups find what they found before, nothing lives
that did not, and no object of a library has changed (`Machine.Reachable.unmoved_of_error`).
-/

namespace CanonIR

/-! ## What looking leaves -/

/-- Nothing has moved: look-ups find what they found, what lives is what lived, and the objects of
the libraries are as they were. -/
structure Unmoved (w w' : World Recorders) : Prop where
  lookup_types : ∀ (cx : Context) a,
    (w'.cachesOf cx).types.lookup w'.typeAlive a = (w.cachesOf cx).types.lookup w.typeAlive a
  lookup_values : ∀ (cx : Context) a,
    (w'.cachesOf cx).values.lookup w'.valueAlive a = (w.cachesOf cx).values.lookup w.valueAlive a
  liveTypes : ∀ cx, w'.liveTypes cx = w.liveTypes cx
  liveValues : ∀ cx, w'.liveValues cx = w.liveValues cx
  held : w'.held.Perm w.held
  /-- Nothing that was made in between lives. -/
  old : ∀ r ∈ w'.held, r.id < w.nextId
  native : w.native.Noted w'.native
  registry : w'.registry = w.registry
  /-- Only dead entries have come to the caches, and only dead ones have gone. -/
  come : ∀ p r, w'.occupant? p = some r → w.occupant? p ≠ some r → w'.holds r.id = false
  gone : ∀ p r, w.occupant? p = some r → w'.occupant? p ≠ some r → w.holds r.id = false
  /-- Block shapes that were known stay known. -/
  blockRefs : ∀ i b, w.blockRefs.get? i = some b → w'.blockRefs.get? i = some b

/-- Equal look-ups see equally many living entries. -/
theorem WeakCache.liveCount_congr {α : Type} {c c' : WeakCache α} {alive alive' : α → Bool}
    (h : ∀ a, c'.lookup alive' a = c.lookup alive a) : c'.liveCount alive' = c.liveCount alive := by
  refine Table.size_eq_of_isSome_get? fun a => ?_
  rw [Table.get?_filter, Table.get?_filter]
  exact congrArg Option.isSome (h a)

namespace World

variable {w w' : World Recorders} {names : Nat → Reference} {log : List Forgetting}

/-- The wrappers that live in their places are the same. -/
theorem Keeps.occupant?_iff (h : w.Keeps w') (hs : Sound names log w) (hp : w'.held.Perm w.held)
    (p : Place) (r : Reference) :
    w'.occupant? p = some r ∧ w'.holds r.id = true ↔
      w.occupant? p = some r ∧ w.holds r.id = true := by
  have hholds : w'.holds r.id = true → w.holds r.id = true := holds_mono hp.subset
  constructor
  · intro hx
    obtain ⟨ho, ha⟩ := hx
    refine ⟨(h.old p r ho).resolve_right fun hle => ?_, hholds ha⟩
    obtain ⟨r', hr', hid⟩ := holds_iff.mp (hholds ha)
    have hlt := (hs.held_named r' hr').lt
    omega
  · intro hx
    exact ⟨h.kept p r hx.1 hx.2, holds_mono h.held hx.2⟩

/-- Work that forgets nothing, and gives up all that it has taken, moves nothing. -/
theorem Keeps.unmoved (h : w.Keeps w') (hs : Sound names log w) (hp : w'.held.Perm w.held)
    (hn : w.native.Noted w'.native) : Unmoved w w' := by
  have htypes (cx : Context) (a : Nat) : (w'.cachesOf cx).types.lookup w'.typeAlive a =
      (w.cachesOf cx).types.lookup w.typeAlive a := by
    refine Option.ext fun t => ?_
    rw [lookup_types_eq_some_iff, lookup_types_eq_some_iff]
    exact h.occupant?_iff hs hp _ (.type t)
  have hvalues (cx : Context) (a : Nat) : (w'.cachesOf cx).values.lookup w'.valueAlive a =
      (w.cachesOf cx).values.lookup w.valueAlive a := by
    refine Option.ext fun v => ?_
    rw [lookup_values_eq_some_iff, lookup_values_eq_some_iff]
    exact h.occupant?_iff hs hp _ (.value v)
  exact
    { lookup_types := htypes
      lookup_values := hvalues
      liveTypes := fun cx => WeakCache.liveCount_congr (htypes cx)
      liveValues := fun cx => WeakCache.liveCount_congr (hvalues cx)
      held := hp
      old := fun r hr => (hs.held_named r (hp.subset hr)).lt
      native := hn
      registry := h.registry
      come := fun p r hr hne => Bool.eq_false_iff.mpr fun ha =>
        hne ((h.occupant?_iff hs hp p r).mp ⟨hr, ha⟩).1
      gone := fun p r hr hne => Bool.eq_false_iff.mpr fun ha => hne (h.kept p r hr ha)
      blockRefs := h.blockRefs }

end World

/-- A primitive that looks may only make calls that change nothing, unless it gives a reference
up. -/
theorem Primitive.Looks.mayCall {a : Primitive} (h : a.Looks) (hr : a.released = []) {c : Call}
    (hc : a.MayCall c) : c.changes = false := by
  cases a with
  | call lib c' =>
    obtain rfl : c = c' := hc
    exact h.1
  | internType | blockRef =>
    obtain rfl := hc
    rfl
  | internValue cx v =>
    rcases hc with ⟨p, rfl⟩ | rfl
    · rfl
    · rfl
  | internBlock cx b =>
    rcases hc with rfl | ⟨v, ⟨p, rfl⟩ | rfl⟩
    · rfl
    · rfl
    · rfl
  | createContext | attachContext | forgetValue => exact h.elim
  | emit | walkLimit | hold => exact hc.elim
  | release r => exact nomatch hr

/-- What a step that looks does, seen from the world that its request began with: it keeps what
lives, and gives up only what was taken since. -/
theorem keeps_of_looks {w₀ w : World Recorders} {a : Primitive}
    (hs : ∃ names log, Sound names log w) (hl : a.Looks) (ha : a.Allowed w.held)
    (hheld : w₀.held ⊆ (a.action.apply w).2.held)
    (hw : w₀.Keeps w ∧ w₀.native.Noted w.native) :
    w₀.Keeps (a.action.apply w).2 ∧ w₀.native.Noted (a.action.apply w).2.native := by
  obtain ⟨names, log, hs⟩ := hs
  cases hr : a.released with
  | nil =>
    have hb : a.binds = false ∧ a.forgets w = [] := by
      cases a with
      | createContext | attachContext | forgetValue => exact hl.elim
      | _ => exact ⟨rfl, rfl⟩
    refine ⟨hw.1.trans (hs.keeps_perform ha hb.1 hr hb.2), trans_of Recorders.Noted hw.2 ?_⟩
    exact Recorders.persists_noted.perform hs ha fun c hc => hl.mayCall hr hc
  | cons r' rs =>
    cases a with
    | release r =>
      -- The context of the reference has been held since the beginning, so it goes on.
      have hx : ((Primitive.release r).action.apply w).2 = w.release r := rfl
      rw [hx] at hheld ⊢
      have hheld' : w₀.held ⊆ (w.relinquish r).held := by
        rw [World.held_release (World.holds_of_mem ha)] at hheld
        exact hheld
      have halive : (w.relinquish r).contextAlive r.owner = true := by
        obtain ⟨r', hr', ho⟩ := hw.1.owner r ha
        exact World.contextAlive_iff.mpr ⟨r', hheld' hr', congrArg Context.id ho⟩
      rw [World.release_of_alive (World.holds_of_mem ha) halive]
      exact ⟨hw.1.relinquish hheld', hw.2⟩
    | _ => exact nomatch hr

theorem Gated.caches_of_none {w w' : World Recorders} {cx : Context} {p : Place}
    (h : Gated cx p w none w') : w'.caches = w.caches := by
  cases h with
  | aside ha =>
    obtain ⟨s, e, rfl⟩ := ha
    rfl

/-- The gates of types and values fail without a trace in the caches. -/
theorem caches_of_gate_error {w w' : World Recorders} {q : Request} {f : Fault}
    (hq : (∃ via h, q = .internType via h) ∨ ∃ via h, q = .internValue via h)
    (hx : q.operation.action.apply w = (.error f, w')) : w'.caches = w.caches := by
  rcases hq with ⟨via, h, rfl⟩ | ⟨via, h, rfl⟩
  · obtain ⟨x, w₁, hg, hgated⟩ := gated_internType via.owner h w
    have hact : (Operation.internType via.owner h).action.apply w = (x, w₁) := hg
    rw [Request.operation, Request.handing, Operation.apply_map, hact] at hx
    cases x with
    | ok t => exact nomatch hx
    | error e =>
      obtain ⟨-, rfl⟩ := Prod.mk.inj hx
      exact hgated.caches_of_none
  · obtain ⟨x, w₁, hg, hgated⟩ := gated_internValue via.owner h w
    have hact : (Operation.internValue via.owner h).action.apply w = (x, w₁) := hg
    rw [Request.operation, Request.handing, Operation.apply_map, hact] at hx
    cases x with
    | ok t => exact nomatch hx
    | error e =>
      obtain ⟨-, rfl⟩ := Prod.mk.inj hx
      exact hgated.caches_of_none

namespace Machine

variable {m : Machine Recorders}

/-- A request that only looks, made in whatever state and with whatever answers of the libraries,
moves nothing if it fails. -/
theorem Reachable.unmoved_of_error (h : Reachable m) {q : Request} (hq : q.operands ⊆ m.user)
    (hc : q.changes = false) {f : Fault} {w : World Recorders}
    (hx : q.operation.action.apply m.world = (.error f, w)) :
    Unmoved m.world w ∧
      ((∃ via h, q = .internType via h) ∨ (∃ via h, q = .internValue via h) →
        w.caches = m.world.caches) := by
  obtain ⟨names, hs⟩ := h.accounted.sound
  have hb : q.operands ⊆ m.world.held := fun r hr =>
    h.accounted.held.symm.subset (List.mem_append_left _ (hq hr))
  obtain ⟨⟨hk, hn⟩, hp⟩ := Operation.Safe.run
    (P := fun w => m.world.Keeps w ∧ m.world.native.Noted w.native)
    (fun a w hs hl ha hheld hw => keeps_of_looks hs hl ha hheld hw)
    q.safe (Request.every_looks hc) hb ⟨names, _, hs⟩ (List.Perm.refl _)
    ⟨.refl _, refl_of Recorders.Noted _⟩
  rw [hx] at hk hn hp
  exact ⟨hk.unmoved hs hp hn, fun hq => caches_of_gate_error hq hx⟩

/-- A library with a value that has two users, of which the second belongs to no class. -/
def usedTwice : Memory.Graph :=
  let (v, g) := Memory.Graph.value {} [.argument]
  let (u₁, g) := g.value [.user, .instruction]
  let (u₂, g) := g.value []
  ((g.addUse v u₁).2.addUse v u₂).2

/-- A context is made over the library, and the used value is wrapped. -/
def wrapUsed : List (Move Recorders) :=
  let address (n : Nat) : Nat := Memory.Graph.baseAddress + n * Memory.Graph.stride
  let cx : Context := ⟨0, ⟨0⟩, ⟨address 6⟩, true, {}⟩
  [.outside (Table.empty.insert ⟨0⟩ { graph := usedTwice }), .ask (.createContext ⟨0⟩ {}),
    .advance 0, .advance 0, .ask (.internValue (.context cx) ⟨address 1⟩), .advance 0, .advance 0]

/-- The walk over the users makes a wrapper of the first one, and fails at the second. -/
theorem unmoved_of_error_users :
    let m : Machine Recorders := wrapUsed.foldl next { world := { native := ∅ } }
    let cx : Context := ⟨0, ⟨0⟩, ⟨Memory.Graph.baseAddress + 6 * Memory.Graph.stride⟩, true, {}⟩
    let q : Request :=
      .users ⟨1, cx, ⟨Memory.Graph.baseAddress + Memory.Graph.stride⟩, .ofClass .argument⟩
    q.operands ⊆ m.user ∧ q.changes = false ∧
      ∃ f w, q.operation.action.apply m.world = (.error f, w) ∧
        w.nextId = m.world.nextId + 1 ∧ Unmoved m.world w := by
  intro m cx q
  have hm : Reachable m := (Reachable.start _).moves (by decide +kernel)
  have hq : q.operands ⊆ m.user := by decide +kernel
  have hfails : (q.operation.action.apply m.world).1.toOption = none := by decide +kernel
  have hnext : (q.operation.action.apply m.world).2.nextId = m.world.nextId + 1 := by
    decide +kernel
  cases hx : q.operation.action.apply m.world with
  | mk x w =>
    rw [hx] at hfails hnext
    cases x with
    | ok rs => exact nomatch hfails
    | error f => exact ⟨hq, rfl, f, w, rfl, hnext, (hm.unmoved_of_error hq rfl hx).1⟩

end Machine

end CanonIR
