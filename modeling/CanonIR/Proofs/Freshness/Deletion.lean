import CanonIR.Binding.Blocks
import CanonIR.Proofs.Binding.Operation
import CanonIR.Proofs.Freshness.Current

/-!
Deleting a block keeps wrappers current: the walk over its instructions forgets every value that the
deletion destroys, so no wrapper of such a value is canonical afterwards.
-/

namespace CanonIR.Current

open Memory (Graph BlockEntry)

variable {cx : Context} {log : List Forgetting} {w : World Graph} {bb : BasicBlock}
variable {b : BlockRef} {e : BlockEntry}

/-- Handles that are forgotten at one time. -/
def forgotten (cx : Context) (n : Nat) (vs : List ValueRef) : List Forgetting :=
  vs.map fun v => ⟨cx.id, v, n⟩

/-- What a stretch of forgetting leaves as it was. -/
structure Kept (w w' : World Graph) : Prop where
  native : w'.native = w.native
  nextId : w'.nextId = w.nextId
  held : w'.held = w.held

theorem Kept.refl (w : World Graph) : Kept w w := ⟨rfl, rfl, rfl⟩

theorem Kept.trans {w w' w'' : World Graph} (h : Kept w w') (h' : Kept w' w'') : Kept w w'' :=
  ⟨h'.native.trans h.native, h'.nextId.trans h.nextId, h'.held.trans h.held⟩

theorem apply_forgetValue (h : Current cx log w) (v : ValueRef) :
    ∃ w', (Operation.forgetValue cx v).action.apply w = (.ok (), w') ∧
      Current cx (⟨cx.id, v, w.nextId⟩ :: log) w' ∧ Kept w w' := by
  obtain ⟨e, he⟩ := Action.apply_forgetValue cx v w
  exact ⟨_, he, (h.forgetValue v).events e, ⟨rfl, rfl, rfl⟩⟩

/-- The walk from some instruction of a living block on forgets all that follow. -/
theorem apply_forgetInstructions (h : Current cx log w) (hbb : bb.value.context = cx)
    (hb : w.native.blocks.get? b = some e) {pre rest : List ValueRef}
    (hi : e.instructions = pre ++ rest) {limit : Nat} (hl : rest.length ≤ limit) :
    ∃ w', (Operation.forgetInstructions bb limit (rest.headD .null)).action.apply w = (.ok (), w') ∧
      Current cx (forgotten cx w.nextId rest ++ log) w' ∧ Kept w w' := by
  induction rest generalizing w log pre limit with
  | nil =>
    refine ⟨w, ?_, h, .refl w⟩
    cases limit <;> rfl
  | cons i rest ih =>
    cases limit with
    | zero => exact absurd hl (Nat.not_succ_le_zero _)
    | succ limit =>
      have hn : i.isNull = false := Graph.isNull_of_mem h.graph hb (by simp [hi])
      have hask : (Operation.ask bb.value (.nextInstruction i)).action.apply w =
          (.ok (rest.headD .null), w) := by
        rw [← Graph.nextInstruction_of_mem h.graph hb hi]
        rfl
      obtain ⟨w₁, hw₁, hc₁, hk₁⟩ := h.apply_forgetValue i
      have hi' : e.instructions = (pre ++ [i]) ++ rest := by rw [hi, List.append_assoc]; rfl
      obtain ⟨w', hw', hc', hk'⟩ := ih hc₁ (by rw [hk₁.native]; exact hb) hi'
        (Nat.le_of_succ_le_succ hl)
      refine ⟨w', ?_, ?_, hk₁.trans hk'⟩
      · rw [List.headD_cons, Operation.forgetInstructions, if_neg (by simp [hn])]
        rw [Operation.apply_bind_of_ok hask, hbb, Operation.apply_bind_of_ok hw₁]
        exact hw'
      · rw [hk₁.nextId] at hc'
        refine hc'.congr_log fun f => ?_
        simp only [forgotten, List.map_cons, List.cons_append, List.mem_append, List.mem_cons]
        exact or_left_comm

/-- Nothing canonical is destroyed once all doomed values have been forgotten. -/
theorem destroy (h : Current cx (forgotten cx w.nextId e.doomed ++ log) w)
    (hb : w.native.blocks.get? b = some e) :
    Current cx (forgotten cx w.nextId e.doomed ++ log)
      { w with native := w.native.deleteBlock b } := by
  obtain ⟨names, hs⟩ := h.sound
  obtain ⟨layouts, hd⟩ := Graph.deleteBlock_eq hb
  refine ⟨⟨names, hs.congr rfl rfl rfl rfl⟩, Graph.wellFormed_deleteBlock h.graph hb, h.owner,
    ?_, ?_, h.slot_lt, ?_⟩
  · intro t ht
    rw [hd]
    exact h.type_kind t ht
  · intro v hv
    have hnot : v.handle ∉ e.doomed := by
      intro hm
      refine hv.2 ⟨⟨cx.id, v.handle, w.nextId⟩, ?_, ?_⟩
      · exact List.mem_append_left _ (List.mem_map.mpr ⟨v.handle, hm, rfl⟩)
      · exact ⟨congrArg Context.id (h.owner _ hv.1), rfl, (hs.held_named _ hv.1).lt⟩
    have hget := Graph.get?_values_deleteBlock hb v.handle
    rw [if_neg hnot] at hget
    obtain ⟨hc, hk⟩ := h.value_kind v hv
    simp only [Table.contains, Graph.valueKind, Graph.ofValue] at hc hk ⊢
    rw [hget]
    exact ⟨hc, hk⟩
  · intro v b' hv hvb
    rcases h.slot v b' hv hvb with hn | ⟨hh, hval⟩
    · exact Or.inl hn
    · refine Or.inr ⟨by rw [hd]; exact hh, fun e' he' => ?_⟩
      exact hval e' (Graph.of_get?_blocks_deleteBlock hb he').2

theorem apply_firstInstruction (hb : w.native.blocks.get? b = some e) :
    (Operation.ask bb.value (.firstInstruction b)).action.apply w =
      (.ok (e.instructions.headD .null), w) := by
  rw [← Graph.ofBlock_of_get? hb .null (·.instructions.headD .null)]
  rfl

/-- Deleting a living block succeeds, and keeps wrappers current. -/
theorem delete (h : Current cx log w) (hbb : .value bb.value ∈ w.held)
    (hx : ((Action.blockRef bb).apply w).1 = .ok b) (hb : w.native.blocks.get? b = some e) :
    ∃ w', (Operation.delete bb).action.apply w = (.ok (), w') ∧
      Current cx (forgotten cx w.nextId e.doomed ++ log) w' ∧
      w'.native = w.native.deleteBlock b := by
  have hcx : bb.value.context = cx := h.owner _ hbb
  obtain ⟨b', w₁, hb', hc₁, hn₁, hh₁, hid₁, hval⟩ := h.blockRef hbb
  obtain rfl : b' = b := by
    rw [hb'] at hx
    exact Except.ok.inj hx
  have hbe : w₁.native.blocks.get? b' = some e := by rw [hn₁]; exact hb
  -- The walk begins at the first instruction, and its bound suffices.
  let w₂ := w₁.emit (.deletingBlock bb.value.handle b')
  have hc₂ : Current cx log w₂ := hc₁.events _
  have hfirst : (Operation.ask bb.value (.firstInstruction b')).action.apply w₂ =
      (.ok (e.instructions.headD .null), w₂) := apply_firstInstruction hbe
  have hall : e.instructions = [] ++ e.instructions := rfl
  obtain ⟨w₃, hw₃, hc₃, hk₃⟩ := hc₂.apply_forgetInstructions hcx hbe hall
    (Graph.length_instructions_le hc₂.graph hbe)
  obtain ⟨w₄, hw₄, hc₄, hk₄⟩ := hc₃.apply_forgetValue bb.value.handle
  have hk : Kept w₂ w₄ := hk₃.trans hk₄
  have hid : w₄.nextId = w.nextId := hk.nextId.trans hid₁
  have hn : w₄.native = w.native := hk.native.trans hn₁
  have hc₅ : Current cx (forgotten cx w₄.nextId e.doomed ++ log) w₄ := by
    rw [BlockEntry.doomed, hval e hb, hk.nextId]
    rw [hk₃.nextId] at hc₄
    exact hc₄
  have hb₄ : w₄.native.blocks.get? b' = some e := by rw [hn]; exact hb
  have hlimit : (Operation.walkLimit bb.value.context.library).action.apply w₂ =
      (.ok (w₂.native.allocated + 1), w₂) := rfl
  have hstart : (Operation.blockRef bb).action.apply w = (.ok b', w₁) := hb'
  have hemit : (Operation.emit (.deletingBlock bb.value.handle b')).action.apply w₁ =
      (.ok (), w₂) := rfl
  have hrun : (Operation.delete bb).action.apply w =
      (.ok (), { w₄ with native := w₄.native.deleteBlock b' }) := by
    rw [Operation.delete, Operation.apply_bind_of_ok hstart, Operation.apply_bind_of_ok hemit,
      Operation.apply_bind_of_ok hfirst, Operation.apply_bind_of_ok hlimit,
      Operation.apply_bind_of_ok hw₃, hcx, Operation.apply_bind_of_ok hw₄]
    rfl
  refine ⟨_, hrun, ?_, by rw [hn]⟩
  rw [← hid]
  exact hc₅.destroy hb₄

end CanonIR.Current
