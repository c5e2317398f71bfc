import CanonIR.Proofs.Memory.Change
import CanonIR.Proofs.Memory.Deletion

/-!
Growth of graphs. Every change of a graph past the bindings, and every call, takes no address back
and gives new blocks new value shapes (`Renews`); every call but the disposal of a context leaves
the list of disposed contexts alone (`Grows`).
-/

namespace CanonIR.Memory

/-- A graph that took no address back, and whose new blocks have new value shapes. -/
structure Graph.Renews (g g' : Graph) : Prop where
  allocated_le : g.allocated ≤ g'.allocated
  blocks : ∀ b e', g'.blocks.get? b = some e' →
    (∃ e, g.blocks.get? b = some e ∧ e.value = e'.value) ∨ ¬ g.Handed e'.value.address

/-- A graph that disposed of no context. -/
structure Graph.Grows (g g' : Graph) : Prop extends g.Renews g' where
  disposed : g'.disposed = g.disposed

namespace Graph

variable {g g' g'' : Graph}

/-- A change that leaves the blocks alone. -/
theorem Renews.of_blocks (ha : g.allocated ≤ g'.allocated) (hb : g'.blocks = g.blocks) :
    g.Renews g' where
  allocated_le := ha
  blocks _ e he := Or.inl ⟨e, hb ▸ he, rfl⟩

theorem Renews.trans (h : g.Renews g') (h' : g'.Renews g'') : g.Renews g'' where
  allocated_le := Nat.le_trans h.allocated_le h'.allocated_le
  blocks b e'' he'' := by
    rcases h'.blocks b e'' he'' with ⟨e', he', hv⟩ | hn
    · exact hv ▸ h.blocks b e' he'
    · exact Or.inr fun hh => hn (hh.mono h.allocated_le)

theorem Grows.refl (g : Graph) : g.Grows g := ⟨.of_blocks (Nat.le_refl _) rfl, rfl⟩

theorem Grows.trans (h : g.Grows g') (h' : g'.Grows g'') : g.Grows g'' :=
  ⟨h.toRenews.trans h'.toRenews, h'.disposed.trans h.disposed⟩

/-! ## Changes past the bindings -/

/-- An address is used for something else than a block. -/
theorem Grows.of_alloc (ha : g'.allocated = g.allocated + 1) (hb : g'.blocks = g.blocks)
    (hd : g'.disposed = g.disposed) : g.Grows g' :=
  ⟨.of_blocks (Nat.le_of_lt (Nat.lt_of_succ_le (Nat.le_of_eq ha.symm))) hb, hd⟩

theorem grows_intType (g : Graph) (cx : ContextRef) (width : Nat) :
    g.Grows (g.intType cx width).2 := by
  unfold intType
  split
  · exact .refl g
  · exact .of_alloc rfl rfl rfl

theorem grows_newBlock (g : Graph) (f : ValueRef) (name : String) :
    g.Grows (g.newBlock f name).2 where
  allocated_le := Nat.le_add_right _ 2
  blocks b e he := by
    rcases Table.get?_of_get?_insert he with ⟨-, rfl⟩ | ⟨-, he⟩
    · exact Or.inr (not_handed_alloc g)
    · exact Or.inl ⟨e, he, rfl⟩
  disposed := rfl

theorem grows_appendBlock (g : Graph) (f : ValueRef) (name : String) :
    g.Grows (g.appendBlock f name).2 :=
  (g.grows_newBlock f name).trans ⟨.of_blocks (Nat.le_refl _) rfl, rfl⟩

theorem grows_instruction (g : Graph) (b : BlockRef) (probes : List Probe) (opcode : Opcode) :
    g.Grows (g.instruction b probes opcode).2 where
  allocated_le := Nat.le_succ _
  blocks b' e' he' := by
    obtain ⟨e, he, hv, -⟩ := of_get?_modify_instructions he'
    exact Or.inl ⟨e, he, hv.symm⟩
  disposed := rfl

theorem grows_addEdge (g : Graph) (term : ValueRef) (target : BlockRef) :
    g.Grows (addEdge term g target) := by
  unfold addEdge
  split
  · exact .of_alloc rfl rfl rfl
  · exact .refl g

theorem grows_branch (g : Graph) (b : BlockRef) (targets : List BlockRef) :
    g.Grows (g.branch b targets).2 := by
  have hedges (g : Graph) (term : ValueRef) : g.Grows (targets.foldl (addEdge term) g) := by
    induction targets generalizing g with
    | nil => exact .refl g
    | cons b bs ih => exact (grows_addEdge g term b).trans (ih _)
  let i := g.instruction b [.terminatorInst, .branchInst] .br
  let g₁ := { i.2 with values := i.2.values.modify i.1 fun e => { e with successors := targets } }
  have h1 : i.2.Grows g₁ := ⟨.of_blocks (Nat.le_refl _) rfl, rfl⟩
  exact ((g.grows_instruction b _ _).trans h1).trans (hedges g₁ i.1)

/-- Using an address again, where that is possible. -/
theorem grows_reuse (g : Graph) (dead : ValueRef) (probes : List Probe) :
    g.Grows ((g.reuseAddress dead probes).getD g) := by
  unfold reuseAddress
  split
  · exact .refl g
  · exact ⟨.of_blocks (Nat.le_refl _) rfl, rfl⟩

theorem WellFormed.reuse (h : g.WellFormed) {dead : ValueRef} (hd : g.Handed dead.address)
    (probes : List Probe) : ((g.reuseAddress dead probes).getD g).WellFormed := by
  cases hr : g.reuseAddress dead probes with
  | none => exact h
  | some g' => exact (evolves_reuseAddress h hd hr).wellFormed

/-! ## Calls -/

theorem grows_insertBlockBefore (g : Graph) (before : BlockRef) (name : String) :
    g.Grows (g.insertBlockBefore before name).2 := by
  unfold insertBlockBefore
  split
  · exact .refl g
  · next f index _ =>
    exact (g.grows_newBlock f name).trans ⟨.of_blocks (Nat.le_refl _) rfl, rfl⟩

theorem grows_moveBlock (g : Graph) (b position : BlockRef) (offset : Nat) :
    g.Grows (g.moveBlock b position offset).2 := by
  obtain ⟨layouts, hm⟩ := moveBlock_eq g b position offset
  rw [hm]
  exact ⟨.of_blocks (Nat.le_refl _) rfl, rfl⟩

/-- Deleting what is no block takes nothing out. -/
theorem deleteBlock_of_get?_none {b : BlockRef} (hb : g.blocks.get? b = none) :
    ∃ layouts, g.deleteBlock b = { g with layouts } := by
  have hp : g.blockPosition? b = none := by
    rw [blockPosition?, hb]
    rfl
  have hd : g.detachBlock? b = none := by
    rw [detachBlock?, hp]
    rfl
  refine ⟨g.layouts, ?_⟩
  rw [deleteBlock, hd]
  simp only [Option.map_none, Option.getD_none, hb]

theorem grows_deleteBlock (g : Graph) (b : BlockRef) : g.Grows (g.deleteBlock b) := by
  cases hb : g.blocks.get? b with
  | none =>
    obtain ⟨layouts, hd⟩ := deleteBlock_of_get?_none hb
    rw [hd]
    exact ⟨.of_blocks (Nat.le_refl _) rfl, rfl⟩
  | some e =>
    obtain ⟨layouts, hd⟩ := deleteBlock_eq hb
    rw [hd]
    exact ⟨⟨Nat.le_refl _, fun _ e' he' => Or.inl ⟨e', (Table.get?_of_get?_erase he').2, rfl⟩⟩, rfl⟩

/-- Every call but the disposal of a context. -/
theorem grows_perform (g : Graph) {c : Call} (hc : ∀ cx, c ≠ .disposeContext cx) :
    g.Grows (g.perform c).2 := by
  cases c with
  | disposeContext cx => exact absurd rfl (hc cx)
  | createContext => exact .of_alloc rfl rfl rfl
  | setValueName | setVolatile => exact ⟨.of_blocks (Nat.le_refl _) rfl, rfl⟩
  | moveBlockBefore b position => exact grows_moveBlock g b position 0
  | moveBlockAfter b position => exact grows_moveBlock g b position 1
  | insertBlockBefore cx before name => exact grows_insertBlockBefore g before name
  | deleteBlock b => exact grows_deleteBlock g b
  | _ => exact .refl g

theorem renews_perform (g : Graph) (c : Call) : g.Renews (g.perform c).2 := by
  cases c with
  | disposeContext cx => exact .of_blocks (Nat.le_refl _) rfl
  | _ => exact (grows_perform g fun _ h => by cases h).toRenews

/-- Every call keeps a graph well formed. -/
theorem WellFormed.perform (h : g.WellFormed) (c : Call) : (g.perform c).2.WellFormed := by
  cases c with
  | deleteBlock b =>
    cases hb : g.blocks.get? b with
    | some e => exact wellFormed_deleteBlock h hb
    | none =>
      obtain ⟨layouts, hd⟩ := deleteBlock_of_get?_none hb
      show (g.deleteBlock b).WellFormed
      rw [hd]
      have hw : g.Evolves { g with layouts } := evolves_of_eq h (Nat.le_refl _) rfl rfl rfl
      exact hw.wellFormed
  | _ => exact (evolves_perform h _ fun _ h => by cases h).wellFormed

end Graph

theorem Change.grows (g : Graph) (x : Change) : g.Grows (x.apply g) := by
  cases x with
  | intType cx width => exact g.grows_intType cx width
  | branch b targets => exact g.grows_branch b targets
  | appendBlock f name => exact g.grows_appendBlock f name
  | instruction b probes opcode => exact g.grows_instruction b probes opcode
  | setType | setPredicate => exact ⟨.of_blocks (Nat.le_refl _) rfl, rfl⟩
  | newContext | newType | newValue | function | addUse => exact .of_alloc rfl rfl rfl

end CanonIR.Memory
