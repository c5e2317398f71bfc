import CanonIR.Proofs.Memory.Layout

/-!
New blocks in layouts. A block that is made in front of another one gets two new addresses, one for
each of its shapes, and is put into the layout of the other one there; nothing else changes
(`Placed.insertBlockBefore_of_split`). In front of a block that is in no layout nothing is made.
-/

namespace CanonIR.Memory.Graph

/-- An empty block with the block shape `n` and the value shape `v` has been made in a function. All
objects that were there are as they were; the layouts are left open. -/
structure Gains (g : Graph) (f : ValueRef) (name : String) (n : BlockRef) (v : ValueRef)
    (g' : Graph) : Prop where
  /-- The two addresses are new. -/
  block_fresh : ¬ g.Handed n.address
  value_fresh : ¬ g.Handed v.address
  apart : n.address ≠ v.address
  allocated : g'.allocated = g.allocated + 2
  values : ∀ x, g'.values.get? x =
    if x = v then some { probes := [.basicBlock], name } else g.values.get? x
  blocks : ∀ x, g'.blocks.get? x = if x = n then some ⟨v, f, []⟩ else g.blocks.get? x
  /-- Uses, types and contexts are as they were. -/
  others : ∃ allocated values blocks layouts,
    g' = { g with allocated, values, blocks, layouts }

variable {g : Graph} {f : ValueRef} {b : BlockRef}

/-- The layouts do not matter for what a graph has gained. -/
theorem Gains.setLayouts {name : String} {n : BlockRef} {v : ValueRef} {g' : Graph}
    (h : g.Gains f name n v g') (layouts : Table ValueRef (List BlockRef)) :
    g.Gains f name n v { g' with layouts } where
  block_fresh := h.block_fresh
  value_fresh := h.value_fresh
  apart := h.apart
  allocated := h.allocated
  values := h.values
  blocks := h.blocks
  others := by
    obtain ⟨a, vs, bs, ls, rfl⟩ := h.others
    exact ⟨a, vs, bs, layouts, rfl⟩

theorem gains_newBlock (g : Graph) (f : ValueRef) (name : String) :
    ∃ n v, (g.newBlock f name).1 = n ∧ g.Gains f name n v (g.newBlock f name).2 := by
  let g₁ := (g.newValue { probes := [.basicBlock], name }).2
  refine ⟨⟨g₁.alloc.1⟩, ⟨g.alloc.1⟩, rfl, ?_, not_handed_alloc g, ?_, rfl, ?_, ?_, ?_⟩
  · exact fun hn => not_handed_alloc g₁ (hn.mono (Nat.le_succ _))
  · intro heq
    have heq : g₁.alloc.1 = g.alloc.1 := heq
    exact not_handed_alloc g₁ (heq ▸ handed_alloc g)
  · exact fun x => Table.get?_insert _ _ _ _
  · exact fun x => Table.get?_insert _ _ _ _
  · exact ⟨_, _, _, _, rfl⟩

/-- A block is made in front of another one that is in a layout. -/
theorem Placed.insertBlockBefore_of_split (h : g.Placed) {pre post : List BlockRef}
    (hl : g.layout f = pre ++ b :: post) (name : String) :
    ∃ n v g', g.insertBlockBefore b name = (n, g') ∧ g.Gains f name n v g' ∧
      ∀ f', g'.layout f' = if f' = f then pre ++ n :: b :: post else g.layout f' := by
  obtain ⟨n, v, hn, hgains⟩ := g.gains_newBlock f name
  let g₁ := (g.newBlock f name).2
  have hlayouts (f' : ValueRef) : g₁.layout f' = g.layout f' := rfl
  refine ⟨n, v, { g₁ with layouts := g₁.layouts.insert f (pre ++ n :: b :: post) }, ?_,
    hgains.setLayouts _, fun f' => ?_⟩
  · have hput : (pre ++ b :: post).insertIdx pre.length n = pre ++ n :: b :: post :=
      Side.before.insertIdx_eq_place pre n b post
    simp only [Graph.insertBlockBefore, h.blockPosition?_of_split hl]
    rw [hn, hlayouts, hl, hput]
  · rw [layout_insert]
    rfl

/-- Nothing is made in front of a block in no layout. -/
theorem insertBlockBefore_of_not_mem (hb : ∀ f, b ∉ g.layout f) (name : String) :
    g.insertBlockBefore b name = (.null, g) := by
  rw [Graph.insertBlockBefore, blockPosition?_of_not_mem hb]

end CanonIR.Memory.Graph
