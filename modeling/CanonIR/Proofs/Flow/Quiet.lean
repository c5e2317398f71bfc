import CanonIR.Proofs.Memory.Consistent
import CanonIR.Proofs.Memory.Kind

/-!
Quiet changes of a graph: they make no edge and no use, and put no instruction into a block. What is
said of the edges of a graph lasts over them. Every call but a deletion is quiet.
-/

namespace CanonIR.Memory

namespace Graph

/-- A change that makes no edge and no use, and puts nothing into a block. -/
structure Quiet (g g' : Graph) : Prop where
  uses : g'.uses = g.uses
  old_value : ∀ v ve, g.values.get? v = some ve →
    ∃ ve', g'.values.get? v = some ve' ∧ ve'.successors = ve.successors ∧ ve'.uses = ve.uses
  new_value : ∀ v ve', g'.values.get? v = some ve' → g.values.get? v = none →
    ve'.successors = [] ∧ ve'.uses = []
  old_block : ∀ b e, g.blocks.get? b = some e → g'.blocks.get? b = some e
  new_block : ∀ b e', g'.blocks.get? b = some e' → g.blocks.get? b = none →
    g.values.get? e'.value = none ∧ e'.instructions = []

variable {g g' g'' : Graph}

theorem Quiet.trans (h : g.Quiet g') (h' : g'.Quiet g'') : g.Quiet g'' where
  uses := h'.uses.trans h.uses
  old_value v ve hve := by
    obtain ⟨ve', hve', hs, hu⟩ := h.old_value v ve hve
    obtain ⟨ve'', hve'', hs', hu'⟩ := h'.old_value v ve' hve'
    exact ⟨ve'', hve'', hs'.trans hs, hu'.trans hu⟩
  new_value v ve'' hve'' hnone := by
    cases hve' : g'.values.get? v with
    | none => exact h'.new_value v ve'' hve'' hve'
    | some ve' =>
      obtain ⟨x, hx, hs, hu⟩ := h'.old_value v ve' hve'
      obtain rfl := Option.some.inj (hx.symm.trans hve'')
      obtain ⟨hs', hu'⟩ := h.new_value v ve' hve' hnone
      exact ⟨hs.trans hs', hu.trans hu'⟩
  old_block b e he := h'.old_block b e (h.old_block b e he)
  new_block b e'' he'' hnone := by
    cases he' : g'.blocks.get? b with
    | none =>
      obtain ⟨hv, hi⟩ := h'.new_block b e'' he'' he'
      refine ⟨?_, hi⟩
      rw [Option.eq_none_iff_forall_ne_some]
      intro ve hve
      obtain ⟨ve', hve', -⟩ := h.old_value _ ve hve
      rw [hv] at hve'
      exact nomatch hve'
    | some e' =>
      obtain rfl := Option.some.inj ((h'.old_block b e' he').symm.trans he'')
      exact h.new_block b e' he' hnone

/-- A change that touches no uses or blocks. -/
theorem quiet_of_values (hu : g'.uses = g.uses) (hb : g'.blocks = g.blocks)
    (hold : ∀ v ve, g.values.get? v = some ve →
      ∃ ve', g'.values.get? v = some ve' ∧ ve'.successors = ve.successors ∧ ve'.uses = ve.uses)
    (hnew : ∀ v ve', g'.values.get? v = some ve' → g.values.get? v = none →
      ve'.successors = [] ∧ ve'.uses = []) : g.Quiet g' where
  uses := hu
  old_value := hold
  new_value := hnew
  old_block b e he := hb ▸ he
  new_block b e' he' hnone := by
    rw [hb, hnone] at he'
    exact nomatch he'

/-- A change that touches no values, uses or blocks. -/
theorem quiet_of_eq (hv : g'.values = g.values) (hu : g'.uses = g.uses)
    (hb : g'.blocks = g.blocks) : g.Quiet g' := by
  refine quiet_of_values hu hb (fun v ve hve => ⟨ve, hv ▸ hve, rfl, rfl⟩) fun v ve' hve' hnone => ?_
  rw [hv, hnone] at hve'
  exact nomatch hve'

theorem Quiet.refl (g : Graph) : g.Quiet g := quiet_of_eq rfl rfl rfl

theorem quiet_newValue (h : g.WellFormed) {ve : ValueEntry} (hs : ve.successors = [])
    (hu : ve.uses = []) : g.Quiet (g.newValue ve).2 := by
  refine quiet_of_values rfl rfl (fun v ve' hve' => ?_) fun v ve' hve' hnone => ?_
  · have hne : v ≠ ⟨g.alloc.1⟩ := ne_newValue h hve'
    refine ⟨ve', ?_, rfl, rfl⟩
    show (g.values.insert ⟨g.alloc.1⟩ ve).get? v = some ve'
    rw [Table.get?_insert, if_neg hne]
    exact hve'
  · rcases Table.get?_of_get?_insert hve' with ⟨-, rfl⟩ | ⟨-, hve'⟩
    · exact ⟨hs, hu⟩
    · rw [show g.values.get? v = some ve' from hve'] at hnone
      exact nomatch hnone

/-- A change of a value that leaves its successors and its uses alone. -/
theorem quiet_modifyValue (g : Graph) (v : ValueRef) {f : ValueEntry → ValueEntry}
    (hf : ∀ e, (f e).successors = e.successors ∧ (f e).uses = e.uses) :
    g.Quiet { g with values := g.values.modify v f } := by
  have hget (v' : ValueRef) : (g.values.modify v f).get? v' =
      if v' = v then (g.values.get? v).map f else g.values.get? v' := Table.get?_modify _ _ _ _
  refine quiet_of_values rfl rfl (fun v' ve hve => ?_) fun v' ve' hve' hnone => ?_
  · show ∃ ve', (g.values.modify v f).get? v' = some ve' ∧ _
    rw [hget]
    split
    · next heq =>
      subst heq
      exact ⟨f ve, by rw [hve]; rfl, hf ve⟩
    · exact ⟨ve, hve, rfl, rfl⟩
  · have hm : (g.values.modify v f).get? v' = some ve' := hve'
    rw [hget] at hm
    split at hm
    · next heq =>
      rw [← heq, hnone] at hm
      cases hm
    · rw [hnone] at hm
      cases hm

theorem quiet_newBlock (h : g.WellFormed) (f : ValueRef) (name : String) :
    g.Quiet (g.newBlock f name).2 := by
  let shape : ValueEntry := { probes := [.basicBlock], name }
  let g₁ := (g.newValue shape).2
  have hw : g₁.WellFormed := (evolves_newValue h shape).wellFormed
  have hfree : g₁.blocks.get? ⟨g₁.alloc.1⟩ = none := by
    rw [Option.eq_none_iff_forall_ne_some]
    exact fun e he => not_handed_alloc g₁ (hw.block_handed _ e he)
  refine { (quiet_newValue h rfl rfl : g.Quiet g₁) with old_block := ?_, new_block := ?_ }
  · intro b e he
    have hne : b ≠ ⟨g₁.alloc.1⟩ := by
      intro heq
      rw [← heq, show g₁.blocks = g.blocks from rfl, he] at hfree
      exact nomatch hfree
    show (g.blocks.insert ⟨g₁.alloc.1⟩ ⟨(g.newValue shape).1, f, []⟩).get? b = some e
    rw [Table.get?_insert, if_neg hne]
    exact he
  · intro b e' he' hnone
    rcases Table.get?_of_get?_insert he' with ⟨-, rfl⟩ | ⟨-, he'⟩
    · exact ⟨get?_alloc_values h, rfl⟩
    · have he : g.blocks.get? b = some e' := he'
      rw [hnone] at he
      exact nomatch he

theorem quiet_appendBlock (h : g.WellFormed) (f : ValueRef) (name : String) :
    g.Quiet (g.appendBlock f name).2 :=
  (quiet_newBlock h f name).trans (quiet_of_eq rfl rfl rfl)

/-- Every call but a deletion is quiet. -/
theorem quiet_perform (h : g.WellFormed) (c : Call) (hc : ∀ b, c ≠ .deleteBlock b) :
    g.Quiet (g.perform c).2 := by
  have hmove (b position : BlockRef) (offset : Nat) :
      g.Quiet (g.moveBlock b position offset).2 := by
    obtain ⟨layouts, hm⟩ := moveBlock_eq g b position offset
    rw [hm]
    exact quiet_of_eq rfl rfl rfl
  cases c with
  | deleteBlock b => exact absurd rfl (hc b)
  | createContext | disposeContext => exact quiet_of_eq rfl rfl rfl
  | setValueName v name => exact g.quiet_modifyValue v fun _ => ⟨rfl, rfl⟩
  | setVolatile v flag => exact g.quiet_modifyValue v fun _ => ⟨rfl, rfl⟩
  | moveBlockBefore b position => exact hmove b position 0
  | moveBlockAfter b position => exact hmove b position 1
  | insertBlockBefore cx before name =>
    show g.Quiet (g.insertBlockBefore before name).2
    unfold insertBlockBefore
    split
    · exact .refl g
    · next f _ _ => exact (quiet_newBlock h f name).trans (quiet_of_eq rfl rfl rfl)
  | _ => exact .refl g

end Graph

end CanonIR.Memory
