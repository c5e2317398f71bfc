import CanonIR.Proofs.Deletion.Footprint
import CanonIR.Proofs.Memory.Placed

/-!
What the deletion of a block does. The entries that leave the cache are those of the values that the
library destroys, which are the block's value shape and its instructions; nothing is classified, and
nothing else changes (`Shaped.delete`).
-/

namespace CanonIR

open Memory (Graph BlockEntry)

/-- Whether a call is made to classify an object. -/
def Call.classifies : Call → Bool
  | isA _ _ | constOpcode _ | typeKind _ => true
  | _ => false

/-- The calls of the deletion of a block, the last first. The block shape may be known. -/
def deletionCalls (known : Bool) (v : ValueRef) (b : BlockRef) (e : BlockEntry) : List Call :=
  .deleteBlock b :: ((e.instructions.map .nextInstruction).reverse ++
    .firstInstruction b :: if known then [] else [.valueAsBlock v])

/-- Nothing is classified on a deletion. -/
theorem classifies_of_mem_deletionCalls {known : Bool} {v : ValueRef} {b : BlockRef}
    {e : BlockEntry} {c : Call} (hc : c ∈ deletionCalls known v b e) : c.classifies = false := by
  rcases List.mem_cons.mp hc with rfl | hc
  · rfl
  · rcases List.mem_append.mp hc with hc | hc
    · obtain ⟨i, -, rfl⟩ := List.mem_map.mp (List.mem_reverse.mp hc)
      rfl
    · rcases List.mem_cons.mp hc with rfl | hc
      · rfl
      · cases known with
        | true => exact absurd hc List.not_mem_nil
        | false =>
          obtain rfl := List.mem_singleton.mp hc
          rfl

/-- What the deletion of a living block through a wrapper does. -/
structure Deleted (bb : BasicBlock) (b : BlockRef) (e : BlockEntry) (w w' : World Recorders) :
    Prop where
  /-- In the bindings, the values that are destroyed are forgotten, and that is all. -/
  forgot : World.Forgot bb.value.context e.doomed w w'
  /-- Other libraries see nothing of it. -/
  libraries : ∀ lib, lib ≠ bb.value.context.library →
    w'.native.recorder lib = w.native.recorder lib
  calls : (w'.native.recorder bb.value.context.library).calls =
    deletionCalls (w.blockRefs.contains bb.value.id) bb.value.handle b e ++
      (w.native.recorder bb.value.context.library).calls
  unclassified : ∀ c ∈ deletionCalls (w.blockRefs.contains bb.value.id) bb.value.handle b e,
    c.classifies = false
  /-- In the library, the values that are forgotten cease to exist, and no other values do. -/
  living : ∀ v ∈ e.doomed, (w.graph bb.value.context.library).values.contains v = true
  values : ∀ v, (w'.graph bb.value.context.library).values.get? v =
    if v ∈ e.doomed then none else (w.graph bb.value.context.library).values.get? v
  blocks : ∀ b', (w'.graph bb.value.context.library).blocks.get? b' =
    if b' = b then none else (w.graph bb.value.context.library).blocks.get? b'
  layout : ∀ f, (w'.graph bb.value.context.library).layout f =
    if f = e.function then ((w.graph bb.value.context.library).layout f).filter (· != b)
    else (w.graph bb.value.context.library).layout f
  /-- Uses, types, contexts and addresses are as they were. -/
  others : ∃ values blocks layouts, w'.graph bb.value.context.library =
    { w.graph bb.value.context.library with values, blocks, layouts }

/-- A library without forced answers deletes a block, and notes it. -/
theorem Recorders.perform_deleteBlock {rs : Recorders} {lib : LibraryId}
    (hf : (rs.recorder lib).forced = ∅) (b : BlockRef) :
    ∃ s, NativeSystem.perform lib (.deleteBlock b) rs = (.ok (), s) ∧
      Recorders.recorder s lib =
        { rs.recorder lib with
          graph := (rs.recorder lib).graph.deleteBlock b
          calls := .deleteBlock b :: (rs.recorder lib).calls } ∧
      ∀ lib', lib' ≠ lib → Recorders.recorder s lib' = rs.recorder lib' := by
  refine ⟨_, perform_of_unforced hf (c := .deleteBlock b) rfl, ?_, fun lib' hl => ?_⟩
  · rw [recorder_insert, if_pos rfl]
  · rw [recorder_insert, if_neg hl]

namespace Shaped

variable {names : Nat → Reference} {log : List Forgetting} {w : World Recorders}
variable {bb : BasicBlock} {b : BlockRef} {e : BlockEntry}

/-- The block shape of the wrapper of a living block is asked for at most once. -/
theorem blockRef_footprint (h : Shaped w) (hbb : .value bb.value ∈ w.held)
    (hd : w.Denotes bb.value b) :
    ∃ w', (Operation.blockRef bb).action.apply w = (.ok b, w') ∧
      Footprint bb.value.context
        (if w.blockRefs.contains bb.value.id then [] else [.valueAsBlock bb.value.handle]) [] w w' := by
  have hop : (Operation.blockRef bb).action.apply w = (Action.blockRef bb).apply w := rfl
  rw [hop, Action.apply_blockRef, Table.contains]
  cases hb : w.blockRefs.get? bb.value.id with
  | some b' =>
    obtain rfl := (h.fits _ hbb).slot b b' hd hb
    exact ⟨w, rfl, .refl _ w⟩
  | none =>
    have hval : ((w.graph bb.value.context.library).perform (.valueAsBlock bb.value.handle)).1 =
        .ok b := by
      obtain ⟨e, he, hv⟩ := hd
      rw [← hv, ← Memory.Graph.valueAsBlock_of_get? (h.graph _) he]
      rfl
    obtain ⟨w₁, hw₁, hp₁⟩ := Operation.apply_ask bb.value (h.unforced _) rfl hval
    have hcall : (Action.call bb.value.context.library (.valueAsBlock bb.value.handle)).apply w =
        (.ok b, w₁) := hw₁
    rw [hcall]
    let w₂ := (w₁.emit (.convertedBlock bb.value.handle b)).noteBlockRef bb b
    have hkeeps := World.keeps_noteBlockRef (w₁.emit (.convertedBlock bb.value.handle b)) bb b
    suffices hp₂ : Footprint bb.value.context [] [] w₁ w₂ from ⟨w₂, rfl, hp₁.trans hp₂⟩
    refine ⟨?_, ?_⟩
    · show Recorders.Asked _ [] w₁.native w₂.native
      rw [World.native_noteBlockRef]
      exact .refl _ _
    · refine .of_eq _ ?_ ?_ ?_ ?_ hkeeps.blockRefs
      · show (World.noteBlockRef bb b _).caches = _
        unfold World.noteBlockRef
        split <;> rfl
      · exact World.held_noteBlockRef _ bb b
      · exact World.nextId_noteBlockRef _ bb b
      · exact hkeeps.registry

/-- Deleting a living block through its wrapper succeeds. Up to the deletion in the library, there
are only questions and forgetting. -/
theorem apply_delete (h : Shaped w) (hbb : .value bb.value ∈ w.held)
    (hb : (w.graph bb.value.context.library).blocks.get? b = some e)
    (hv : e.value = bb.value.handle) :
    ∃ w', (Operation.delete bb).action.apply w = (.ok (), w') ∧
      World.Forgot bb.value.context (e.instructions ++ [e.value]) w w' ∧
      w'.native.recorder bb.value.context.library =
        { w.native.recorder bb.value.context.library with
          graph := (w.graph bb.value.context.library).deleteBlock b
          calls := deletionCalls (w.blockRefs.contains bb.value.id) bb.value.handle b e ++
            (w.native.recorder bb.value.context.library).calls } ∧
      ∀ lib, lib ≠ bb.value.context.library → w'.native.recorder lib = w.native.recorder lib := by
  have hw := h.graph bb.value.context.library
  have hf := h.unforced bb.value.context.library
  obtain ⟨w₁, hw₁, hp₁⟩ := h.blockRef_footprint hbb ⟨e, hb, hv⟩
  -- The event in between changes nothing that counts.
  let w₂ := w₁.emit (.deletingBlock bb.value.handle b)
  have hemit : (Operation.emit (.deletingBlock bb.value.handle b)).action.apply w₁ = (.ok (), w₂) :=
    rfl
  have hq₂ : Footprint bb.value.context [] [] w₁ w₂ :=
    ⟨.refl _ _, .of_eq _ rfl rfl rfl rfl fun _ _ => id⟩
  have hp₂ := hp₁.trans hq₂
  have hfirst : ((w₂.graph bb.value.context.library).perform (.firstInstruction b)).1 =
      .ok (e.instructions.headD .null) := by
    rw [hp₂.graph]
    exact congrArg Except.ok (Graph.ofBlock_of_get? hb _ _)
  obtain ⟨w₃, hw₃, hq₃⟩ := Operation.apply_ask bb.value (hp₂.forced.trans hf) rfl hfirst
  have hp₃ := hp₂.trans hq₃
  -- The bound of the walk over the instructions suffices.
  let limit := (w₃.native.recorder bb.value.context.library).walkLimit
  have hlimit : (Operation.walkLimit bb.value.context.library).action.apply w₃ = (.ok limit, w₃) :=
    rfl
  have hlen : e.instructions.length ≤ limit := by
    have hle := Graph.length_instructions_le (hp₃.graph ▸ hw) (hp₃.graph ▸ hb)
    have hsum : limit = (w₃.graph bb.value.context.library).allocated +
      (w₃.native.recorder bb.value.context.library).forced.size + 1 := rfl
    omega
  have hall : e.instructions = [] ++ e.instructions := rfl
  obtain ⟨w₄, hw₄, hq₄⟩ := Operation.apply_forgetInstructions (w := w₃) (hp₃.graph ▸ hw)
    (hp₃.forced.trans hf) (hp₃.graph ▸ hb) hall hlen
  obtain ⟨w₅, hw₅, hq₅⟩ := Operation.apply_forgetValue w₄ bb.value.context bb.value.handle
  have hp₅ := (hp₃.trans hq₄).trans hq₅
  obtain ⟨s, hdel, hrec, hothers⟩ := Recorders.perform_deleteBlock (hp₅.forced.trans hf) b
  refine ⟨{ w₅ with native := s }, ?_, ?_, ?_, fun lib hl => ?_⟩
  · rw [Operation.delete, Operation.apply_bind_of_ok hw₁, Operation.apply_bind_of_ok hemit,
      Operation.apply_bind_of_ok hw₃, Operation.apply_bind_of_ok hlimit,
      Operation.apply_bind_of_ok hw₄, Operation.apply_bind_of_ok hw₅]
    exact Action.apply_call_of_perform hdel
  · rw [hv]
    exact { hp₅.forgot with }
  · refine hrec.trans ?_
    rw [hp₅.asked.recorder]
    rfl
  · exact (hothers lib hl).trans (hp₅.asked.others lib hl)

/-- The entries that leave the cache are those of the values that are destroyed. -/
theorem delete (h : Shaped w) (hpl : (w.graph bb.value.context.library).Placed)
    (hbb : .value bb.value ∈ w.held)
    (hb : (w.graph bb.value.context.library).blocks.get? b = some e)
    (hv : e.value = bb.value.handle) :
    ∃ w', (Operation.delete bb).action.apply w = (.ok (), w') ∧ Deleted bb b e w w' := by
  obtain ⟨w', hrun, hforgot, hrec, hothers⟩ := h.apply_delete hbb hb hv
  refine ⟨w', hrun, ?_⟩
  have hgraph : w'.graph bb.value.context.library =
      (w.graph bb.value.context.library).deleteBlock b := congrArg Recorder.graph hrec
  have hmem (v : ValueRef) : v ∈ e.instructions ++ [e.value] ↔ v ∈ e.doomed := by
    rw [BlockEntry.doomed, List.mem_append, List.mem_singleton, List.mem_cons, or_comm]
  refine ⟨?_, hothers, congrArg Recorder.calls hrec, fun c => classifies_of_mem_deletionCalls, ?_,
    ?_, ?_, ?_, ?_⟩
  · exact { hforgot with
      values := fun v => by
        rw [hforgot.values]
        simp only [hmem] }
  · exact fun v hm => Option.isSome_iff_exists.mpr (hpl.living hb hm)
  · rw [hgraph]
    exact Graph.get?_values_deleteBlock hb
  · rw [hgraph]
    exact Graph.get?_blocks_deleteBlock hb
  · rw [hgraph]
    exact hpl.layout_deleteBlock hb
  · rw [hgraph]
    obtain ⟨layouts, hd⟩ := Graph.deleteBlock_eq hb
    exact ⟨_, _, layouts, hd⟩

end Shaped

end CanonIR
