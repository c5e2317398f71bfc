import CanonIR.Proofs.Deletion.Exact
import CanonIR.Proofs.Shapes.InStep

/-!
After a deletion. In every state that is reached over in-memory libraries, the deletion of a living
block takes exactly what it destroys out of the cache of its context; and whatever happens then, the
gate of a value that has come to a destroyed address classifies it afresh, unless a wrapper of the
new value lives, and never returns a wrapper from before (`Shapes.Reachable.cleared`).
-/

namespace CanonIR

open Memory (BlockEntry)

/-! ## Blocks stay where they are -/

namespace Recorder

/-- Blocks and instructions are placed if they have been. -/
def Settles (r r' : Recorder) : Prop := r.graph.Placed → r'.graph.Placed

instance : IsPreorder Recorder Settles where
  refl _ := id
  trans _ _ _ h h' := h' ∘ h

theorem settles_perform (r : Recorder) (c : Call) : r.Settles (r.perform c).2 := by
  intro h
  rw [graph_perform]
  exact h.perform c

end Recorder

namespace Shapes

variable {u : Shapes} {x : MemoryMove}

/-- No move displaces a block or an instruction. -/
theorem Kept.settles (h : Kept u) (hx : u.Enabled x) :
    Recorders.Each Recorder.Settles u.world.native (u.next x).world.native :=
  h.each hx (fun _ c _ _ hp => c.placed hp) (fun _ dead probes _ _ hp => hp.reuse dead probes)
    Recorder.settles_perform

theorem Reachable.placed (h : Reachable u) (lib : LibraryId) : (u.world.graph lib).Placed := by
  induction h with
  | start => exact Memory.Graph.placed_empty
  | move h x hx ih => exact h.kept.settles hx lib ih

end Shapes

/-! ## The log of a machine -/

namespace Machine

variable {σ : Type} [NativeSystem σ] {m : Machine σ}

/-- What has been forgotten stays in the log. -/
theorem log_subset_next (m : Machine σ) (x : Move σ) : m.log ⊆ (m.next x).log := by
  cases x with
  | outside | ask | release => exact List.Subset.refl _
  | advance i =>
    rw [next]
    cases m.threads[i]? with
    | none => exact List.Subset.refl _
    | some th =>
      rw [Option.elim_some, advance]
      cases th.rest with
      | done x => exact List.Subset.refl _
      | step a k => exact List.subset_append_right _ _

/-- The log is a note only: no move depends on it. -/
theorem next_log (m : Machine σ) (log : List Forgetting) (x : Move σ) :
    ∃ log', next { m with log } x = { m.next x with log := log' } := by
  cases x with
  | outside | ask | release => exact ⟨log, rfl⟩
  | advance i =>
    simp only [next]
    cases m.threads[i]? with
    | none => exact ⟨log, rfl⟩
    | some th =>
      simp only [Option.elim_some, advance]
      cases th.rest with
      | done x => exact ⟨log, rfl⟩
      | step a k => exact ⟨_, rfl⟩

omit [NativeSystem σ] in
theorem enabled_log (m : Machine σ) (log : List Forgetting) (x : Move σ) :
    Enabled { m with log } x ↔ m.Enabled x := by
  cases x <;> rfl

theorem moves_log (m : Machine σ) (log : List Forgetting) {xs : List (Move σ)}
    (hx : Admits Enabled next { m with log } xs) :
    Admits Enabled next m xs ∧
      ∃ log', xs.foldl next { m with log } = { xs.foldl next m with log := log' } := by
  induction xs generalizing m log with
  | nil => exact ⟨trivial, log, rfl⟩
  | cons x xs ih =>
    obtain ⟨he, hx⟩ := hx
    obtain ⟨log', hn⟩ := m.next_log log x
    rw [hn] at hx
    obtain ⟨hadm, log'', hfold⟩ := ih (m.next x) log' hx
    refine ⟨⟨(m.enabled_log log x).mp he, hadm⟩, log'', ?_⟩
    rw [List.foldl_cons, hn]
    exact hfold

end Machine

/-! ## Gates afterwards -/

/-- What the gate of a context does with a value at an address that was destroyed in a world `w`:
a wrapper that it returns is none of those from then, and unless a younger one of the value lives,
the value is classified. -/
structure Renewed {σ : Type} [NativeSystem σ] (w : World σ) (cx : Context) (v : ValueRef)
    (w' : World σ) : Prop where
  apart : ∀ y w₁, (Action.internValue cx v).apply w' = (.ok (some y), w₁) →
    ∀ r ∈ w.held, r.id ≠ y.id
  afresh : (∀ y, .value y ∈ w'.held → y.context.id = cx.id → y.handle = v → y.id < w.nextId) →
    match (Action.classifyValue cx.library v cx.options.unknownValues).apply w' with
    | (.ok kind, _) =>
      ∃ w₁, (Action.internValue cx v).apply w' = (.ok (some ⟨w'.nextId, cx, v, kind⟩), w₁)
    | (.error f, w₁) => (Action.internValue cx v).apply w' = (.error f, w₁)

/-- The log says of a value that it was forgotten, so what stands in its place is younger. -/
theorem Sound.renewed {σ : Type} [NativeSystem σ] {names names' : Nat → Reference}
    {log log' : List Forgetting} {w w' : World σ} {cx : Context} {v : ValueRef}
    (h : Sound names log w) (h' : Sound names' log' w') (hn : v.isNull = false)
    (hf : ⟨cx.id, v, w.nextId⟩ ∈ log') : Renewed w cx v w' := by
  have hyoung {y : ValueWrapper} (hy : w'.occupant? ⟨cx.id, .value, v.address⟩ = some (.value y)) :
      y.context.id = cx.id ∧ y.handle = v ∧ w.nextId ≤ y.id := by
    have hp := Place.mk.inj (Option.some.inj (h'.place _ _ hy).1)
    have hh : y.handle = v := congrArg Handle.mk hp.2.2
    refine ⟨hp.1, hh, Nat.le_of_not_lt fun hlt => h'.fresh _ _ hy ⟨_, hf, ?_⟩⟩
    exact ⟨hp.1, hh, hlt⟩
  have hle := h'.log_le _ hf
  refine ⟨fun y w₁ hy r hr heq => ?_, fun hold => ?_⟩
  · have hlt := (h.held_named r hr).lt
    have hge : w.nextId ≤ y.id := by
      obtain ⟨x, w₂, hx, hg⟩ := gated_internValue cx v w'
      obtain ⟨rfl, rfl⟩ := Prod.mk.inj (hx.symm.trans hy)
      cases hg with
      | hit ho ha => exact (hyoung ho).2.2
      | miss ha hfree h0 hid ho hp he =>
        obtain ⟨s, e, rfl⟩ := ha
        exact Nat.le_trans hle (Nat.le_of_eq hid.symm)
    omega
  · have hl : (w'.cachesOf cx).values.lookup w'.valueAlive v.address = none := by
      rw [Option.eq_none_iff_forall_ne_some]
      intro y hy
      obtain ⟨ho, ha⟩ := World.lookup_values_eq_some_iff.mp hy
      obtain ⟨hc, hh, hge⟩ := hyoung ho
      exact absurd (hold y (h'.mem_of_holds ho ha) hc hh) (Nat.not_lt_of_le hge)
    have ha := Action.asks_classifyValue cx.library v cx.options.unknownValues w'
    rw [Action.apply_internValue_miss hn hl]
    generalize (Action.classifyValue cx.library v cx.options.unknownValues).apply w' = r at ha ⊢
    obtain ⟨f | kind, w₁⟩ := r
    · rfl
    · obtain ⟨s, e, rfl⟩ := ha
      exact ⟨_, rfl⟩

namespace Shapes

/-- A living block was deleted through a wrapper, in one go. -/
structure Cleared (u : Shapes) (bb : BasicBlock) (b : BlockRef) (e : BlockEntry)
    (w' : World Recorders) : Prop where
  run : (Operation.delete bb).action.apply u.world = (.ok (), w')
  deleted : Deleted bb b e u.world w'
  /-- Whoever has the wrapper can have it done. -/
  served : .value bb.value ∈ u.machine.user →
    ∃ log, Machine.Reachable { u.machine with world := w', log }
  /-- Whatever happens then, the gates have renewed what was destroyed. -/
  renewed : ∀ log xs, Admits Machine.Enabled Machine.next { u.machine with world := w', log } xs →
    ∀ v ∈ e.doomed, Renewed u.world bb.value.context v
      (xs.foldl Machine.next { u.machine with world := w', log }).world

/-- In every reachable state, the deletion of a living block succeeds, and clears exactly what it
destroys. -/
theorem Reachable.cleared {u : Shapes} (h : Reachable u) {bb : BasicBlock} {b : BlockRef}
    {e : BlockEntry} (hbb : .value bb.value ∈ u.world.held)
    (hb : (u.world.graph bb.value.context.library).blocks.get? b = some e)
    (hv : e.value = bb.value.handle) : ∃ w', u.Cleared bb b e w' := by
  have hacc := h.kept.machine.accounted
  obtain ⟨names, hs⟩ := hacc.sound
  obtain ⟨w', hrun, hdel⟩ := h.kept.shaped.delete (h.placed _) hbb hb hv
  refine ⟨w', hrun, hdel, fun huser => ?_, fun log xs hx v hm => ?_⟩
  · obtain ⟨log, hm⟩ := h.kept.machine.request (.delete bb) (List.cons_subset.mpr
      ⟨huser, List.nil_subset _⟩)
    have hop : (Request.delete bb).operation.action.apply u.machine.world = (.ok [], w') := by
      show (Request.handing (Operation.delete bb)).action.apply u.world = _
      rw [Request.handing, Operation.apply_map, hrun]
      rfl
    rw [hop] at hm
    exact ⟨log, hm⟩
  · -- With a log that says what was forgotten, the machine is accounted for, and stays so.
    let forgotten := e.doomed.map fun v => (⟨bb.value.context.id, v, u.world.nextId⟩ : Forgetting)
    let m : Machine Recorders := { u.machine with world := w', log := forgotten ++ u.machine.log }
    have hm₀ : m.Accounted :=
      { hacc with
        sound := ⟨names, hs.forgot hdel.forgot⟩
        held := hdel.forgot.held ▸ hacc.held }
    have hf₀ : ⟨bb.value.context.id, v, u.world.nextId⟩ ∈ m.log :=
      List.mem_append_left _ (List.mem_map.mpr ⟨v, hm, rfl⟩)
    obtain ⟨hadm, log', hfold⟩ := m.moves_log log hx
    have hstep (m : Machine Recorders) (x : Machine.Move Recorders)
        (hm : m.Accounted ∧ ⟨bb.value.context.id, v, u.world.nextId⟩ ∈ m.log) (hx : m.Enabled x) :
        (m.next x).Accounted ∧ ⟨bb.value.context.id, v, u.world.nextId⟩ ∈ (m.next x).log :=
      ⟨hm.1.next x hx, m.log_subset_next x hm.2⟩
    obtain ⟨hacc', hf⟩ := Admits.foldl hstep ⟨hm₀, hf₀⟩ hadm
    obtain ⟨names', hs'⟩ := hacc'.sound
    obtain ⟨ve, hve⟩ := Memory.Graph.contains_iff.mp (hdel.living v hm)
    have hn : v.isNull = false :=
      Handle.isNull_eq_false_iff.mpr ((h.kept.shaped.graph _).value_handed v ve hve).ne_zero
    have hworld : (xs.foldl Machine.next { m with log }).world = (xs.foldl Machine.next m).world := by
      rw [hfold]
    show Renewed _ _ _ (xs.foldl Machine.next { m with log }).world
    rw [hworld]
    exact hs.renewed hs' hn hf

/-- A function with two blocks; the first has two instructions, one of which is wrapped, as is the
block itself. -/
def twoBlocks : List MemoryMove :=
  let address (n : Nat) : Nat := Memory.Graph.baseAddress + n * Memory.Graph.stride
  let cx : Context := ⟨0, ⟨0⟩, ⟨address 8⟩, true, {}⟩
  [.build ⟨0⟩ .function, .build ⟨0⟩ (.appendBlock ⟨address 1⟩ "first"),
    .build ⟨0⟩ (.appendBlock ⟨address 1⟩ "second"),
    .build ⟨0⟩ (.instruction ⟨address 3⟩ [.loadInst] .load),
    .build ⟨0⟩ (.branch ⟨address 3⟩ [])] ++
    MemoryMove.serve (.createContext ⟨0⟩ {}) ++
    MemoryMove.serve (.internValue (.context cx) ⟨address 2⟩) ++
    MemoryMove.serve (.internValue (.context cx) ⟨address 6⟩)

theorem cleared_twoBlocks :
    let address (n : Nat) : Nat := Memory.Graph.baseAddress + n * Memory.Graph.stride
    let cx : Context := ⟨0, ⟨0⟩, ⟨address 8⟩, true, {}⟩
    let first : BasicBlock := ⟨⟨1, cx, ⟨address 2⟩, .ofClass .basicBlock⟩, by decide⟩
    let entry : BlockEntry := ⟨⟨address 2⟩, ⟨address 1⟩, [⟨address 6⟩, ⟨address 7⟩]⟩
    let u := twoBlocks.foldl next {}
    .value first.value ∈ u.machine.user ∧ u.world.nextId = 3 ∧
      ∃ w', u.Cleared first ⟨address 3⟩ entry w' :=
  ⟨by decide +kernel, by decide +kernel,
    (Reachable.start.moves (by decide +kernel)).cleared (by decide +kernel) (by decide +kernel) rfl⟩

end Shapes

end CanonIR
