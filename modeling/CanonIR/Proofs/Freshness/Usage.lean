import CanonIR.Proofs.Freshness.Deletion
import CanonIR.Proofs.Identity.Navigation
import CanonIR.Proofs.Memory.Change
import CanonIR.Proofs.Moves

/-!
The usage of one context over the in-memory library. The library is built up and changed past the
context, primitives are performed, blocks are deleted through the context, and the addresses of
destroyed values are used again, in any order. Whatever has happened, the gates answer as if they
classified the object anew each time (`Usage.Reachable.freshGates`).
-/

namespace CanonIR

/-- The end of a value: its handle, and the identity that the next object was to get then. -/
structure Grave where
  handle : ValueRef
  time : Nat
  deriving DecidableEq

/-- The bindings over a library, and the values that were destroyed so far. -/
structure Usage where
  world : World Memory.Graph
  graves : List Grave := []

namespace Usage

/-- What can happen next. -/
inductive Move where
  /-- The library is changed past the bindings. -/
  | build (x : Memory.Change)
  /-- A new value takes the address of a destroyed one. -/
  | reuse (dead : ValueRef) (probes : List Probe)
  | act (a : Primitive)
  /-- A block is deleted, with nothing between the steps of the deletion. -/
  | delete (bb : BasicBlock)

/-- The block that a wrapper leads to. -/
def block? (u : Usage) (bb : BasicBlock) : Option Memory.BlockEntry :=
  match ((Action.blockRef bb).apply u.world).1 with
  | .ok b => u.world.native.blocks.get? b
  | .error _ => none

/-- Primitives are proper and work with what is held, addresses of destroyed values only are used
again, and only living blocks are deleted. -/
def Enabled (u : Usage) : Move → Prop
  | .build _ => True
  | .reuse dead _ =>
    (∃ g ∈ u.graves, g.handle = dead) ∧ u.world.native.values.contains dead = false
  | .act a => a.Allowed u.world.held ∧ a.Proper u.world.native
  | .delete bb => .value bb.value ∈ u.world.held ∧ (u.block? bb).isSome = true

instance (u : Usage) (x : Move) : Decidable (u.Enabled x) := by
  cases x <;> unfold Enabled <;> infer_instance

def next (u : Usage) : Move → Usage
  | .build x => { u with world := { u.world with native := x.apply u.world.native } }
  | .reuse dead probes =>
    let native := (u.world.native.reuseAddress dead probes).getD u.world.native
    { u with world := { u.world with native } }
  | .act a => { u with world := (a.action.apply u.world).2 }
  | .delete bb =>
    let doomed := ((u.block? bb).map (·.doomed)).getD []
    { world := ((Operation.delete bb).action.apply u.world).2
      graves := doomed.map (⟨·, u.world.nextId⟩) ++ u.graves }

/-- The states that users of one context can come to, who have made it or bound it over a library
that was built up from nothing. -/
inductive Reachable (cx : Context) : Usage → Prop where
  | create (xs : List Memory.Change) (lib : LibraryId) (options : ContextOptions)
    {w : World Memory.Graph}
    (h : (Action.createContext lib options).apply { native := .ofChanges xs } = (.ok cx, w)) :
    Reachable cx { world := w }
  | attach (xs : List Memory.Change) (lib : LibraryId) (raw : ContextRef)
    (options : ContextOptions) {w : World Memory.Graph}
    (h : (Action.attachContext lib raw options).apply { native := .ofChanges xs } = (.ok cx, w)) :
    Reachable cx { world := w }
  | move {u : Usage} (h : Reachable cx u) (x : Move) (hx : u.Enabled x) : Reachable cx (u.next x)

/-- The gates of a context answer as a classification at the moment does: they fail as it fails, and
else return a wrapper with the kind that it comes to. -/
structure FreshGates (cx : Context) (u : Usage) : Prop where
  type_gate : ∀ ty : TypeRef, u.world.native.types.contains ty = true →
    match ((Action.classifyType cx.library ty).apply u.world).1 with
    | .ok kind => ∃ t w', (Action.internType cx ty).apply u.world = (.ok (some t), w') ∧
        t.context = cx ∧ t.handle = ty ∧ t.kind = kind
    | .error f => ∃ w', (Action.internType cx ty).apply u.world = (.error f, w')
  /-- The wrapper is younger than whatever was destroyed at the address of the value. -/
  value_gate : ∀ v : ValueRef, u.world.native.values.contains v = true →
    match ((Action.classifyValue cx.library v cx.options.unknownValues).apply u.world).1 with
    | .ok kind => ∃ x w', (Action.internValue cx v).apply u.world = (.ok (some x), w') ∧
        x.context = cx ∧ x.handle = v ∧ x.kind = kind ∧
        ∀ g ∈ u.graves, g.handle = v → g.time ≤ x.id
    | .error f => ∃ w', (Action.internValue cx v).apply u.world = (.error f, w')
  block_gate : ∀ b : BlockRef, u.world.native.blocks.contains b = true →
    let v := u.world.native.blockValue b
    match ((Action.classifyValue cx.library v cx.options.unknownValues).apply u.world).1 with
    | .ok kind => ∃ bb w', (Action.internBlock cx b).apply u.world = (.ok (some bb), w') ∧
        bb.value.context = cx ∧ bb.value.handle = v ∧ bb.value.kind = kind ∧
        ∀ g ∈ u.graves, g.handle = v → g.time ≤ bb.value.id
    | .error f => ∃ w', (Action.internBlock cx b).apply u.world = (.error f, w')

/-! ## The invariant -/

/-- Whoever destroys a value forgets it. -/
def log (cx : Context) (u : Usage) : List Forgetting :=
  u.graves.map fun g => ⟨cx.id, g.handle, g.time⟩

/-- The invariant: wrappers are current, and what was destroyed had an address of the library. -/
structure Tended (cx : Context) (u : Usage) : Prop where
  current : Current cx (u.log cx) u.world
  handed : ∀ g ∈ u.graves, u.world.native.Handed g.handle.address

variable {cx : Context} {u : Usage}

namespace Tended

theorem evolve (h : Tended cx u) {g : Memory.Graph} (hg : u.world.native.Evolves g) :
    Tended cx { u with world := { u.world with native := g } } where
  current := h.current.evolve hg
  handed x hx := (h.handed x hx).mono hg.keeps.allocated_le

theorem reuse (h : Tended cx u) {dead : ValueRef} {probes : List Probe}
    (hx : u.Enabled (.reuse dead probes)) : Tended cx (u.next (.reuse dead probes)) := by
  obtain ⟨⟨g, hg, rfl⟩, -⟩ := hx
  refine h.evolve ?_
  cases hr : u.world.native.reuseAddress g.handle probes with
  | none => exact .refl h.current.graph
  | some g' => exact Memory.Graph.evolves_reuseAddress h.current.graph (h.handed g hg) hr

theorem act (h : Tended cx u) {a : Primitive} (ha : a.Allowed u.world.held)
    (hp : a.Proper u.world.native) : Tended cx (u.next (.act a)) := by
  obtain ⟨hc, hg⟩ := h.current.perform ha hp
  exact ⟨hc, fun x hx => (h.handed x hx).mono hg.keeps.allocated_le⟩

theorem exists_of_block? {bb : BasicBlock} (h : (u.block? bb).isSome = true) :
    ∃ b e, ((Action.blockRef bb).apply u.world).1 = .ok b ∧
      u.world.native.blocks.get? b = some e ∧ u.block? bb = some e := by
  unfold block? at h ⊢
  cases hb : ((Action.blockRef bb).apply u.world).1 with
  | error f =>
    rw [hb] at h
    exact nomatch h
  | ok b =>
    rw [hb] at h
    obtain ⟨e, he⟩ := Option.isSome_iff_exists.mp h
    exact ⟨b, e, rfl, he, he⟩

theorem delete (h : Tended cx u) {bb : BasicBlock} (hbb : .value bb.value ∈ u.world.held)
    (hb : (u.block? bb).isSome = true) : Tended cx (u.next (.delete bb)) := by
  obtain ⟨b, e, hx, he, hbe⟩ := exists_of_block? hb
  obtain ⟨w', hw', hc, hn⟩ := h.current.delete hbb hx he
  obtain ⟨layouts, hd⟩ := Memory.Graph.deleteBlock_eq he
  have hhanded {a : Nat} (ha : u.world.native.Handed a) : w'.native.Handed a := by
    rw [hn, hd]
    exact ha
  simp only [next, hw', hbe, Option.map_some, Option.getD_some]
  refine ⟨?_, fun g hg => ?_⟩
  · rw [log, List.map_append, List.map_map]
    exact hc
  · rcases List.mem_append.mp hg with hg | hg
    · obtain ⟨v, hv, rfl⟩ := List.mem_map.mp hg
      obtain ⟨ve, hve⟩ := Memory.Graph.exists_of_mem_doomed h.current.graph he hv
      exact hhanded (h.current.graph.value_handed v ve hve)
    · exact hhanded (h.handed g hg)

/-- Every move keeps the invariant. -/
theorem next (h : Tended cx u) (x : Move) (hx : u.Enabled x) : Tended cx (u.next x) := by
  cases x with
  | build x => exact h.evolve (x.evolves h.current.graph)
  | reuse dead probes => exact h.reuse hx
  | act a => exact h.act hx.1 hx.2
  | delete bb => exact h.delete hx.1 hx.2

end Tended

theorem Reachable.tended (h : Reachable cx u) : Tended cx u := by
  induction h with
  | create xs lib options h =>
    obtain ⟨hb, hn⟩ := begins_createContext h
    have hg := Memory.Graph.evolves_newContext (Memory.Graph.wellFormed_ofChanges xs)
    exact ⟨hb.current (hn ▸ hg.wellFormed), nofun⟩
  | attach xs lib raw options h =>
    obtain ⟨hb, hn⟩ := begins_attachContext h
    exact ⟨hb.current (hn ▸ Memory.Graph.wellFormed_ofChanges xs), nofun⟩
  | move h x hx ih => exact ih.next x hx

/-! ## The gates -/

/-- A canonical wrapper is younger than the ends of values at its address. -/
theorem time_le_of_canonical {w : World Memory.Graph} {x : ValueWrapper} (ho : x.context = cx)
    (hx : (Reference.value x).Canonical (u.log cx) w) :
    ∀ g ∈ u.graves, g.handle = x.handle → g.time ≤ x.id := by
  intro g hg hh
  refine Nat.le_of_not_lt fun hlt => hx.2 ⟨⟨cx.id, g.handle, g.time⟩, ?_, ?_⟩
  · exact List.mem_map.mpr ⟨g, hg, rfl⟩
  · exact ⟨congrArg Context.id ho, hh ▸ rfl, hlt⟩

/-- Whatever the users of a context do, as long as somebody holds the context its gates answer as a
classification at the moment does. -/
theorem Reachable.freshGates (h : Reachable cx u) (hcx : ∃ r ∈ u.world.held, r.owner = cx) :
    FreshGates cx u := by
  have hc := h.tended.current
  refine ⟨fun ty hty => ?_, fun v hv => ?_, fun b hb => ?_⟩
  · obtain ⟨e, he⟩ := Memory.Graph.contains_iff.mp hty
    have hn := Handle.isNull_eq_false_iff.mpr (hc.graph.type_handed ty e he).ne_zero
    rw [apply_classifyType_memory]
    obtain ⟨w', -, -, ⟨t, hx, ho, hh, hk⟩ | ⟨f, hx, hk⟩⟩ := hc.type_gate hcx hn hty
    · rw [hk]
      exact ⟨t, w', hx, ho, hh, rfl⟩
    · rw [hk]
      exact ⟨w', hx⟩
  · obtain ⟨e, he⟩ := Memory.Graph.contains_iff.mp hv
    have hn := Handle.isNull_eq_false_iff.mpr (hc.graph.value_handed v e he).ne_zero
    obtain ⟨ev, hev⟩ := apply_classifyValue_memory cx.library v cx.options.unknownValues u.world
    rw [hev]
    obtain ⟨w', -, -, ⟨x, hx, ho, hh, hk, hcan⟩ | ⟨f, hx, hk⟩⟩ := hc.value_gate hcx hn hv
    · rw [hk]
      exact ⟨x, w', hx, ho, hh, rfl, hh ▸ time_le_of_canonical ho hcan⟩
    · rw [hk]
      exact ⟨w', hx⟩
  · obtain ⟨e, he⟩ := Memory.Graph.contains_iff.mp hb
    have hval : u.world.native.blockValue b = e.value := by
      rw [Memory.Graph.blockValue, he]
      rfl
    obtain ⟨ev, hev⟩ :=
      apply_classifyValue_memory cx.library e.value cx.options.unknownValues u.world
    obtain ⟨w', -, -, bb, hx, ho, hh, hk, hcan⟩ := hc.block_gate hcx he
    dsimp only
    rw [hval, hev, hk]
    exact ⟨bb, w', hx, ho, hh, rfl, hh ▸ time_le_of_canonical ho hcan⟩

/-! ## Requests -/

/-- An operation that is safe, and proper with every step, leads to such a state again. -/
theorem Reachable.run {α : Type} {op : Operation α} {borrowed own others : List Reference}
    {post : Except Fault α → List Reference} (h : Reachable cx u) (hs : op.Safe borrowed post own)
    (hb : borrowed ⊆ others) (hheld : u.world.held.Perm (own ++ others))
    (hp : op.Along (fun g a => a.Proper g) u.world) :
    Reachable cx { u with world := (op.action.apply u.world).2 } := by
  induction op generalizing u own with
  | done x => exact h
  | step a next ih =>
    obtain ⟨ha, hr, hn⟩ := hs
    obtain ⟨names, hsound⟩ := h.tended.current.sound
    obtain ⟨x, w', hx, -, hheld'⟩ := Operation.perform_own hsound ha hr hb hheld
    have hallowed : a.Allowed u.world.held := by
      refine ha.mono fun r hr => hheld.symm.subset ?_
      rcases List.mem_append.mp hr with hr | hr
      · exact List.mem_append_right own (hb hr)
      · exact List.mem_append_left others hr
    have hu : Reachable cx (u.next (.act a)) := h.move (.act a) ⟨hallowed, hp.1⟩
    have hw : (a.action.apply u.world).2 = w' := congrArg Prod.snd hx
    refine ih (a.action.apply u.world).1 hu (hn _) ?_ hp.2
    rw [Usage.next, hw, congrArg Prod.fst hx]
    exact hheld'

/-- So the users of the context can make any request but a deletion, which is a move by itself. -/
theorem Reachable.request (h : Reachable cx u) (q : Request) (hq : q.operands ⊆ u.world.held)
    (hp : q.operation.Along (fun g a => a.Proper g) u.world) :
    Reachable cx { u with world := (q.operation.action.apply u.world).2 } :=
  h.run q.safe hq (List.Perm.refl _) hp

/-! ## A run -/

theorem Reachable.moves (h : Reachable cx u) {xs : List Move} (hx : Admits Enabled next u xs) :
    Reachable cx (xs.foldl next u) :=
  hx.foldl (fun _ x hu hx => hu.move x hx) h

/-- A function with a block that holds one instruction. -/
def loading : List Memory.Change :=
  let address (n : Nat) : Nat := Memory.Graph.baseAddress + n * Memory.Graph.stride
  [.function, .appendBlock ⟨address 1⟩ "entry", .instruction ⟨address 3⟩ [.loadInst] .load]

/-- The block is deleted while its wrappers are held, and another value takes the address of its
instruction. -/
def reusing (cx : Context) : List Move :=
  let address (n : Nat) : Nat := Memory.Graph.baseAddress + n * Memory.Graph.stride
  let bb : BasicBlock := ⟨⟨1, cx, ⟨address 2⟩, .ofClass .basicBlock⟩, rfl⟩
  [.act (.internBlock cx ⟨address 3⟩), .act (.internValue cx ⟨address 4⟩), .delete bb,
    .reuse ⟨address 4⟩ [.user, .instruction, .storeInst]]

theorem freshGates_reusing :
    let cx : Context :=
      ⟨0, ⟨0⟩, ⟨Memory.Graph.baseAddress + 5 * Memory.Graph.stride⟩, true, {}⟩
    let w := ((Action.createContext ⟨0⟩ {}).apply { native := .ofChanges loading }).2
    let u := (reusing cx).foldl next { world := w }
    (∃ g ∈ u.graves, u.world.native.values.contains g.handle = true) ∧
      (∃ r ∈ u.world.held, r.owner = cx) ∧ FreshGates cx u := by
  intro cx w u
  have hcx : ∃ r ∈ u.world.held, r.owner = cx := by decide +kernel
  have hw : Reachable cx { world := w } := .create loading ⟨0⟩ {} rfl
  have hu : Reachable cx u := hw.moves (by decide +kernel)
  exact ⟨by decide +kernel, hcx, hu.freshGates hcx⟩

end Usage

end CanonIR
