import CanonIR.Proofs.Memory.Moves
import CanonIR.Proofs.Shapes.Conversions

/-!
The two shapes of a block stay in step. Over in-memory libraries, operations take their steps in any
order, blocks come and go, and addresses of destroyed values are used again. As long as the gates of
values and blocks are given null or living handles, both gates of a living block return one wrapper,
whose block shape is that block, and a library is asked for the block shape of a wrapper at most
once (`Shapes.Reachable.inStep`).
-/

namespace CanonIR

/-- An address that is used again was handed out, and no living value has it. -/
def MemoryMove.Reuses (rs : Recorders) : MemoryMove → Prop
  | reuse lib dead _ =>
    (rs.recorder lib).graph.Handed dead.address ∧
      (rs.recorder lib).graph.values.contains dead = false
  | _ => True

instance (rs : Recorders) (x : MemoryMove) : Decidable (x.Reuses rs) := by
  cases x <;> unfold MemoryMove.Reuses <;> infer_instance

/-- Operations side by side over in-memory libraries, with the tally of what they have done to
wrappers of blocks. -/
structure Shapes where
  machine : Machine Recorders := { world := { native := ∅ } }
  tally : Tally := {}

namespace Shapes

def world (u : Shapes) : World Recorders := u.machine.world

def Enabled (u : Shapes) (x : MemoryMove) : Prop :=
  u.machine.Enabled (x.move u.world.native) ∧
    (∀ a ∈ x.primitive? u.machine, a.Given u.world.native) ∧ x.Reuses u.world.native

instance (u : Shapes) (x : MemoryMove) : Decidable (u.Enabled x) := by
  unfold Enabled
  infer_instance

def next (u : Shapes) (x : MemoryMove) : Shapes where
  machine := u.machine.next (x.move u.world.native)
  tally := (x.primitive? u.machine).elim u.tally (u.tally.note u.world)

/-- The states that can be reached from empty libraries. -/
inductive Reachable : Shapes → Prop where
  | start : Reachable {}
  | move {u : Shapes} (h : Reachable u) (x : MemoryMove) (hx : u.Enabled x) : Reachable (u.next x)

/-- The shapes of blocks are in step. -/
structure InStep (u : Shapes) : Prop where
  /-- The gate of blocks returns a wrapper of a living block; then the gate of values returns the
  same for the value shape, and the block shape of the wrapper is the block. -/
  block_first : ∀ cx, (∃ r ∈ u.world.held, r.owner = cx) → ∀ b,
    (u.world.graph cx.library).blocks.contains b = true →
      ∃ bb w₁ w₂, (Action.internBlock cx b).apply u.world = (.ok (some bb), w₁) ∧
        (Action.internShape cx b).apply w₁ = (.ok (some bb.value), w₂) ∧
        ((Action.blockRef bb).apply w₁).1 = .ok b ∧ ((Action.blockRef bb).apply w₂).1 = .ok b
  /-- The same the other way around, where the block shape may have to be asked for. -/
  value_first : ∀ cx, (∃ r ∈ u.world.held, r.owner = cx) → ∀ b,
    (u.world.graph cx.library).blocks.contains b = true →
      ∃ bb w₁ w₂, (Action.internShape cx b).apply u.world = (.ok (some bb.value), w₁) ∧
        (Action.internBlock cx b).apply w₁ = (.ok (some bb), w₂) ∧
        ((Action.blockRef bb).apply w₁).1 = .ok b ∧ ((Action.blockRef bb).apply w₂).1 = .ok b
  /-- A block shape that is known of a wrapper never changes. -/
  stays : ∀ i b, u.world.blockRefs.get? i = some b → ∀ xs, Admits Enabled next u xs →
    (xs.foldl next u).world.blockRefs.get? i = some b
  /-- All conversions that the libraries have seen were made for wrappers in the tally, -/
  conversions : ∀ lib, (u.world.native.recorder lib).conversions =
    (u.tally.converted.filter (·.context.library = lib)).map (·.handle)
  /-- where no wrapper is twice, -/
  once : (u.tally.converted.map (·.id)).Nodup
  /-- and none that came from the gate of blocks before its block shape was used. -/
  apart : ∀ v ∈ u.tally.converted, ∀ v' ∈ u.tally.reached, v.id ≠ v'.id

/-! ## The invariant -/

/-- The invariant: the machine has come here by itself, the shapes are as they should be, and the
tally is kept. -/
structure Kept (u : Shapes) : Prop where
  machine : u.machine.Reachable
  shaped : Shaped u.world
  tally : u.tally.Kept u.world

variable {u : Shapes} {x : MemoryMove}

namespace Kept

/-- What a move can do: one primitive is performed, or the libraries change past the bindings. -/
theorem step (h : Kept u) (hx : u.Enabled x) :
    (∃ a : Primitive, a.Allowed u.world.held ∧ a.Plain ∧ a.Given u.world.native ∧
      (u.next x).world = (a.action.apply u.world).2 ∧
      (u.next x).tally = u.tally.note u.world a) ∨
    ∃ s, u.world.native.Renew s ∧ u.world.native.Unconverted s ∧
      (u.next x).world = { u.world with native := s } ∧ (u.next x).tally = u.tally := by
  obtain ⟨hm, hg, hreuse⟩ := hx
  cases x with
  | build lib x =>
    exact Or.inr ⟨_, Recorders.renew_build _ lib x, Recorders.each_insert rfl, rfl, rfl⟩
  | reuse lib dead probes =>
    exact Or.inr ⟨_, Recorders.renew_reuse hreuse.1 probes, Recorders.each_insert rfl, rfl, rfl⟩
  | ask q =>
    exact Or.inr ⟨u.world.native, refl_of Recorders.Renew _, refl_of Recorders.Unconverted _, rfl,
      rfl⟩
  | release r =>
    have ha : r ∈ u.world.held :=
      h.machine.accounted.held.symm.subset (List.mem_append_left _ hm.1)
    exact Or.inl ⟨.release r, ha, trivial, trivial, rfl, rfl⟩
  | advance i =>
    have hw : (u.next (.advance i)).world =
        (u.machine.primitive? i).elim u.world fun a => (a.action.apply u.world).2 :=
      u.machine.world_advance i
    have ht : (u.next (.advance i)).tally =
        (u.machine.primitive? i).elim u.tally (u.tally.note u.world) := rfl
    cases hi : u.machine.primitive? i with
    | none =>
      rw [hi] at hw ht
      exact Or.inr ⟨u.world.native, refl_of Recorders.Renew _, refl_of Recorders.Unconverted _, hw,
        ht⟩
    | some a =>
      rw [hi] at hw ht
      exact Or.inl ⟨a, h.machine.accounted.allowed hi, h.machine.plain hi, hg a hi, hw, ht⟩

/-- Every move keeps the invariant. -/
theorem next (h : Kept u) (hx : u.Enabled x) : Kept (u.next x) := by
  have hm := h.machine.move _ hx.1
  rcases h.step hx with ⟨a, ha, hp, hg, hw, ht⟩ | ⟨s, hr, hc, hw, ht⟩
  · obtain ⟨names, hs⟩ := h.machine.accounted.sound
    refine ⟨hm, ?_, ?_⟩
    · rw [hw]
      exact h.shaped.perform hs ha hg
    · rw [hw, ht]
      exact h.tally.perform h.shaped hs ha hp
  · refine ⟨hm, ?_, ?_⟩
    · rw [hw]
      exact h.shaped.step hr (Nat.le_refl _) rfl fun _ => Or.inl
    · rw [hw, ht]
      exact h.tally.calm hc fun _ _ => id

/-- What is kept up between a recorder and what it becomes, whether it is built up, has an address
used again or answers a call, every move keeps up in all libraries. -/
theorem each {R : Recorder → Recorder → Prop} [IsPreorder Recorder R] (h : Kept u)
    (hx : u.Enabled x)
    (hbuild : ∀ lib c, x = .build lib c → ∀ r : Recorder, R r { r with graph := c.apply r.graph })
    (hreuse : ∀ lib dead probes, x = .reuse lib dead probes → ∀ r : Recorder,
      R r { r with graph := (r.graph.reuseAddress dead probes).getD r.graph })
    (hperform : ∀ (r : Recorder) c, R r (r.perform c).2) :
    Recorders.Each R u.world.native (u.next x).world.native := by
  have hprimitive {a : Primitive} (ha : a.Allowed u.world.held) :
      Recorders.Each R u.world.native (a.action.apply u.world).2.native := by
    obtain ⟨names, hs⟩ := h.machine.accounted.sound
    exact (Recorders.persists_each fun r c _ => hperform r c).perform (K := fun _ => True) hs ha
      fun _ _ => trivial
  cases x with
  | build lib c => exact Recorders.each_insert (hbuild lib c rfl _)
  | reuse lib dead probes => exact Recorders.each_insert (hreuse lib dead probes rfl _)
  | ask q => exact refl_of (Recorders.Each R) _
  | release r =>
    have hr : r ∈ u.world.held :=
      h.machine.accounted.held.symm.subset (List.mem_append_left _ hx.1.1)
    exact hprimitive (a := .release r) hr
  | advance i =>
    have hw : (u.next (.advance i)).world =
        (u.machine.primitive? i).elim u.world fun a => (a.action.apply u.world).2 :=
      u.machine.world_advance i
    rw [hw]
    cases hi : u.machine.primitive? i with
    | none => exact refl_of (Recorders.Each R) _
    | some a => exact hprimitive (h.machine.accounted.allowed hi)

/-- Every move keeps the known block shapes. -/
theorem blockRefs_next (h : Kept u) (hx : u.Enabled x) {i : Nat} {b : BlockRef}
    (hb : u.world.blockRefs.get? i = some b) : (u.next x).world.blockRefs.get? i = some b := by
  rcases h.step hx with ⟨a, ha, -, -, hw, -⟩ | ⟨s, -, -, hw, -⟩
  · obtain ⟨names, hs⟩ := h.machine.accounted.sound
    rw [hw]
    exact hs.blockRefs_perform ha hb
  · rw [hw]
    exact hb

end Kept

theorem Reachable.kept (h : Reachable u) : Kept u := by
  induction h with
  | start => exact ⟨.start _, Shaped.start, Tally.kept_start _ fun _ => rfl⟩
  | move h x hx ih => exact ih.next hx

theorem Reachable.moves (h : Reachable u) {xs : List MemoryMove}
    (hx : Admits Enabled next u xs) : Reachable (xs.foldl next u) :=
  hx.foldl (fun _ x hu hx => hu.move x hx) h

/-- In every state the two shapes of every living block are one wrapper, whichever gate has made it
and however its block shape came to be known, and no wrapper is converted without need. -/
theorem Reachable.inStep (h : Reachable u) : InStep u where
  block_first cx hcx b hb := by
    obtain ⟨names, hs⟩ := h.kept.machine.accounted.sound
    obtain ⟨e, he⟩ := Memory.Graph.contains_iff.mp hb
    obtain ⟨bb, w₁, -, hblock, hmet, -⟩ := h.kept.shaped.block_gates hs hcx he
    obtain ⟨w₂, hshape, -, hmet'⟩ := hmet.noteBlockRef.again
    exact ⟨bb, _, w₂, hblock, hshape, hmet.noteBlockRef.blockRef, hmet'.blockRef⟩
  value_first cx hcx b hb := by
    obtain ⟨names, hs⟩ := h.kept.machine.accounted.sound
    obtain ⟨e, he⟩ := Memory.Graph.contains_iff.mp hb
    obtain ⟨bb, w₁, hshape, -, hmet, -⟩ := h.kept.shaped.block_gates hs hcx he
    obtain ⟨w₂, -, hblock, hmet'⟩ := hmet.again
    exact ⟨bb, w₁, _, hshape, hblock, hmet.blockRef, hmet'.noteBlockRef.blockRef⟩
  stays i b hb xs hx := by
    have hstep (u : Shapes) (x : MemoryMove)
        (hu : Reachable u ∧ u.world.blockRefs.get? i = some b) (hx : u.Enabled x) :
        Reachable (u.next x) ∧ (u.next x).world.blockRefs.get? i = some b :=
      ⟨hu.1.move x hx, hu.1.kept.blockRefs_next hx hu.2⟩
    exact (Admits.foldl hstep ⟨h, hb⟩ hx).2
  conversions := h.kept.tally.log
  once := h.kept.tally.once
  apart := h.kept.tally.apart

/-- Of two blocks, one is first reached by its value shape and one by its block shape; both are
used, the second is deleted, and its address is used again. -/
def bothWays : List MemoryMove :=
  let address (n : Nat) : Nat := Memory.Graph.baseAddress + n * Memory.Graph.stride
  let serve := MemoryMove.serve
  let cx : Context := ⟨0, ⟨0⟩, ⟨address 6⟩, true, {}⟩
  let first : BasicBlock := ⟨⟨1, cx, ⟨address 2⟩, .ofClass .basicBlock⟩, by decide⟩
  let second : BasicBlock := ⟨⟨2, cx, ⟨address 4⟩, .ofClass .basicBlock⟩, by decide⟩
  [.build ⟨0⟩ .function, .build ⟨0⟩ (.appendBlock ⟨address 1⟩ "first"),
    .build ⟨0⟩ (.appendBlock ⟨address 1⟩ "second")] ++
    serve (.createContext ⟨0⟩ {}) ++
    serve (.internValue (.context cx) first.value.handle) ++
    serve (.internBlock (.context cx) ⟨address 5⟩) ++
    [.ask (.moveBefore second first)] ++ List.replicate 4 (.advance 0) ++
    serve (.internBlock (.context cx) ⟨address 3⟩) ++
    [.ask (.delete second)] ++ List.replicate 7 (.advance 0) ++
    [.reuse ⟨0⟩ second.value.handle [.argument]] ++
    serve (.internValue (.context cx) second.value.handle)

theorem inStep_bothWays :
    let u := bothWays.foldl next {}
    u.tally.converted.map (·.id) = [1] ∧ u.tally.reached.map (·.id) = [2] ∧
      u.world.nextId = 4 ∧ InStep u :=
  ⟨by decide +kernel, by decide +kernel, by decide +kernel,
    (Reachable.start.moves (by decide +kernel)).inStep⟩

end Shapes

end CanonIR
