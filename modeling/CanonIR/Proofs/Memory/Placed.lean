import Mathlib.Data.List.InsertIdx
import CanonIR.Proofs.Memory.Growth

/-!
Where blocks and instructions stand. A block has a value shape of its own, an instruction in a block
is a living value that points back to it and stands there once, and a layout holds living blocks of
its own function, each once (`Placed`). Nothing is asked of the other values, so that this survives
values at addresses that were never handed out. Every change of a graph keeps it, and so does every
call, deletions and calls that trap included.
-/

namespace CanonIR.Memory

namespace Graph

structure Placed (g : Graph) : Prop where
  block_handed : ∀ b e, g.blocks.get? b = some e → g.Handed b.address
  doomed_handed : ∀ b e, g.blocks.get? b = some e → ∀ v ∈ e.doomed, g.Handed v.address
  doomed_nodup : ∀ b e, g.blocks.get? b = some e → e.doomed.Nodup
  /-- What is destroyed with a block is destroyed with no other block. -/
  home : ∀ b e b' e' v, g.blocks.get? b = some e → g.blocks.get? b' = some e' →
    v ∈ e.doomed → v ∈ e'.doomed → b = b'
  block_value : ∀ b e, g.blocks.get? b = some e → ∃ ve, g.values.get? e.value = some ve
  parent : ∀ b e, g.blocks.get? b = some e → ∀ i ∈ e.instructions,
    ∃ ve, g.values.get? i = some ve ∧ ve.parent = b
  layout_nodup : ∀ f, (g.layout f).Nodup
  layout_home : ∀ f, ∀ b ∈ g.layout f, ∃ e, g.blocks.get? b = some e ∧ e.function = f

theorem placed_empty : Placed {} where
  block_handed _ _ h := nomatch h
  doomed_handed _ _ h := nomatch h
  doomed_nodup _ _ h := nomatch h
  home _ _ _ _ _ h := nomatch h
  block_value _ _ h := nomatch h
  parent _ _ h := nomatch h
  layout_nodup _ := List.nodup_nil
  layout_home _ _ h := nomatch h

variable {g g' : Graph}

/-- What is destroyed with a living block is living. -/
theorem Placed.living (h : g.Placed) {b : BlockRef} {e : BlockEntry} (hb : g.blocks.get? b = some e)
    {v : ValueRef} (hv : v ∈ e.doomed) : ∃ ve, g.values.get? v = some ve := by
  rcases List.mem_cons.mp hv with rfl | hv
  · exact h.block_value b e hb
  · obtain ⟨ve, hve, -⟩ := h.parent b e hb v hv
    exact ⟨ve, hve⟩

/-! ## Elementary changes -/

/-- A change that leaves blocks and layouts alone, and the values that belong to blocks where they
are. -/
theorem Placed.of_values (h : g.Placed) (ha : g.allocated ≤ g'.allocated)
    (hb : g'.blocks = g.blocks) (hl : g'.layouts = g.layouts)
    (hv : ∀ b e, g.blocks.get? b = some e → ∀ v ∈ e.doomed, ∀ ve, g.values.get? v = some ve →
      ∃ ve', g'.values.get? v = some ve' ∧ ve'.parent = ve.parent) : g'.Placed where
  block_handed b e he := (h.block_handed b e (hb ▸ he)).mono ha
  doomed_handed b e he v hm := (h.doomed_handed b e (hb ▸ he) v hm).mono ha
  doomed_nodup b e he := h.doomed_nodup b e (hb ▸ he)
  home b e b' e' v he he' := h.home b e b' e' v (hb ▸ he) (hb ▸ he')
  block_value b e he := by
    rw [hb] at he
    obtain ⟨ve, hve⟩ := h.block_value b e he
    obtain ⟨ve', hve', -⟩ := hv b e he e.value List.mem_cons_self ve hve
    exact ⟨ve', hve'⟩
  parent b e he i hi := by
    rw [hb] at he
    obtain ⟨ve, hve, hp⟩ := h.parent b e he i hi
    obtain ⟨ve', hve', hp'⟩ := hv b e he i (List.mem_cons_of_mem _ hi) ve hve
    exact ⟨ve', hve', hp'.trans hp⟩
  layout_nodup f := by
    rw [layout, hl]
    exact h.layout_nodup f
  layout_home f b hm := by
    rw [layout, hl] at hm
    rw [hb]
    exact h.layout_home f b hm

/-- A change that touches no values, blocks or layouts. -/
theorem Placed.of_eq (h : g.Placed) (ha : g.allocated ≤ g'.allocated) (hv : g'.values = g.values)
    (hb : g'.blocks = g.blocks) (hl : g'.layouts = g.layouts) : g'.Placed :=
  h.of_values ha hb hl fun _ _ _ _ _ ve hve => ⟨ve, hv ▸ hve, rfl⟩

/-- A value is put at an address that belongs to no block. -/
theorem Placed.insertValue (h : g.Placed) {v : ValueRef} (ve : ValueEntry)
    (hfree : ∀ b e, g.blocks.get? b = some e → v ∉ e.doomed) :
    Placed { g with values := g.values.insert v ve } := by
  refine h.of_values (Nat.le_refl _) rfl rfl fun b e he v' hm xe hxe => ⟨xe, ?_, rfl⟩
  have hne : v' ≠ v := fun heq => hfree b e he (heq ▸ hm)
  show (g.values.insert v ve).get? v' = some xe
  rw [Table.get?_insert, if_neg hne]
  exact hxe

/-- A change of a value that leaves it where it is. -/
theorem Placed.modifyValue (h : g.Placed) (v : ValueRef) {f : ValueEntry → ValueEntry}
    (hf : ∀ e, (f e).parent = e.parent) : Placed { g with values := g.values.modify v f } := by
  refine h.of_values (Nat.le_refl _) rfl rfl fun b e he v' hm xe hxe => ?_
  show ∃ xe', (g.values.modify v f).get? v' = some xe' ∧ _
  rw [Table.get?_modify]
  split
  · next heq =>
    subst heq
    exact ⟨f xe, by rw [hxe]; rfl, hf xe⟩
  · exact ⟨xe, hxe, rfl⟩

/-- A new order of the blocks of a function. -/
theorem Placed.setLayout (h : g.Placed) {f : ValueRef} {l : List BlockRef} (hl : l.Nodup)
    (hm : ∀ b ∈ l, ∃ e, g.blocks.get? b = some e ∧ e.function = f) :
    Placed { g with layouts := g.layouts.insert f l } := by
  have hlayout (f' : ValueRef) :
      layout { g with layouts := g.layouts.insert f l } f' = if f' = f then l else g.layout f' := by
    rw [layout, Table.get?_insert]
    split <;> rfl
  refine { h with layout_nodup := fun f' => ?_, layout_home := fun f' b hb => ?_ }
  · rw [hlayout]
    split
    · exact hl
    · exact h.layout_nodup f'
  · rw [hlayout] at hb
    split at hb
    · next heq => exact heq ▸ hm b hb
    · exact h.layout_home f' b hb

/-- A new block with a living value shape that belongs to no block. -/
theorem Placed.addBlock (h : g.Placed) {v : ValueRef} {ve : ValueEntry} (f : ValueRef)
    (hv : g.values.get? v = some ve) (hh : g.Handed v.address)
    (hfree : ∀ b e, g.blocks.get? b = some e → v ∉ e.doomed) :
    Placed { g.alloc.2 with blocks := g.blocks.insert ⟨g.alloc.1⟩ ⟨v, f, []⟩ } := by
  have hle : g.allocated ≤ g.alloc.2.allocated := Nat.le_succ _
  refine ⟨?_, ?_, ?_, ?_, ?_, ?_, h.layout_nodup, ?_⟩
  · intro b e he
    rcases Table.get?_of_get?_insert he with ⟨rfl, -⟩ | ⟨-, he⟩
    · exact handed_alloc g
    · exact (h.block_handed b e he).mono hle
  · intro b e he v' hm
    rcases Table.get?_of_get?_insert he with ⟨-, rfl⟩ | ⟨-, he⟩
    · obtain rfl := List.mem_singleton.mp hm
      exact hh.mono hle
    · exact (h.doomed_handed b e he v' hm).mono hle
  · intro b e he
    rcases Table.get?_of_get?_insert he with ⟨-, rfl⟩ | ⟨-, he⟩
    · exact List.nodup_singleton v
    · exact h.doomed_nodup b e he
  · intro b e b' e' v' he he' hm hm'
    rcases Table.get?_of_get?_insert he with ⟨rfl, rfl⟩ | ⟨-, he⟩ <;>
      rcases Table.get?_of_get?_insert he' with ⟨rfl, rfl⟩ | ⟨-, he'⟩
    · rfl
    · rw [List.mem_singleton.mp hm] at hm'
      exact absurd hm' (hfree b' e' he')
    · rw [List.mem_singleton.mp hm'] at hm
      exact absurd hm (hfree b e he)
    · exact h.home b e b' e' v' he he' hm hm'
  · intro b e he
    rcases Table.get?_of_get?_insert he with ⟨-, rfl⟩ | ⟨-, he⟩
    · exact ⟨ve, hv⟩
    · exact h.block_value b e he
  · intro b e he i hi
    rcases Table.get?_of_get?_insert he with ⟨-, rfl⟩ | ⟨-, he⟩
    · exact absurd hi List.not_mem_nil
    · exact h.parent b e he i hi
  · intro f' b hb
    obtain ⟨e, he, hf⟩ := h.layout_home f' b hb
    have hne : b ≠ ⟨g.alloc.1⟩ := by
      intro heq
      subst heq
      exact not_handed_alloc g (h.block_handed _ e he)
    exact ⟨e, by rw [Table.get?_insert, if_neg hne]; exact he, hf⟩

/-- What belongs to a block with one more instruction at its end. -/
theorem doomed_of_get?_modify {b b' : BlockRef} {v : ValueRef} {e' : BlockEntry}
    (he' : (g.blocks.modify b fun e => { e with instructions := e.instructions ++ [v] }).get? b' =
      some e') :
    ∃ e, g.blocks.get? b' = some e ∧
      (e'.doomed = e.doomed ∨ b' = b ∧ e'.doomed = e.doomed ++ [v]) := by
  obtain ⟨e, he, hval, hi⟩ := of_get?_modify_instructions he'
  refine ⟨e, he, ?_⟩
  rw [BlockEntry.doomed, BlockEntry.doomed, hval]
  exact hi.imp (congrArg (e.value :: ·)) fun hi => ⟨hi.1, congrArg (e.value :: ·) hi.2⟩

/-- A value that points to a block and belongs to none is put at its end. -/
theorem Placed.addInstruction (h : g.Placed) {b : BlockRef} {v : ValueRef} {ve : ValueEntry}
    (hv : g.values.get? v = some ve) (hpar : ve.parent = b) (hh : g.Handed v.address)
    (hfree : ∀ b' e, g.blocks.get? b' = some e → v ∉ e.doomed) :
    Placed { g with
      blocks := g.blocks.modify b fun e => { e with instructions := e.instructions ++ [v] } } := by
  -- What belongs to a block afterwards belonged to it before, or is the instruction.
  have hmem {b' : BlockRef} {e e' : BlockEntry} {x : ValueRef}
      (hor : e'.doomed = e.doomed ∨ b' = b ∧ e'.doomed = e.doomed ++ [v]) (hx : x ∈ e'.doomed) :
      x ∈ e.doomed ∨ b' = b ∧ x = v := by
    rcases hor with hd | ⟨hb, hd⟩
    · exact Or.inl (hd ▸ hx)
    · rw [hd, List.mem_append, List.mem_singleton] at hx
      exact hx.imp_right fun hx => ⟨hb, hx⟩
  refine { h with
    block_handed := ?_, doomed_handed := ?_, doomed_nodup := ?_, home := ?_, block_value := ?_,
    parent := ?_, layout_home := ?_ }
  · intro b' e' he'
    obtain ⟨e, he, -⟩ := doomed_of_get?_modify he'
    exact h.block_handed b' e he
  · intro b' e' he' x hx
    obtain ⟨e, he, hor⟩ := doomed_of_get?_modify he'
    rcases hmem hor hx with hx | ⟨-, rfl⟩
    · exact h.doomed_handed b' e he x hx
    · exact hh
  · intro b' e' he'
    obtain ⟨e, he, hd | ⟨-, hd⟩⟩ := doomed_of_get?_modify he'
    · exact hd ▸ h.doomed_nodup b' e he
    · rw [hd, ← List.concat_eq_append]
      exact (h.doomed_nodup b' e he).concat (hfree b' e he)
  · intro b₁ e₁ b₂ e₂ x he₁ he₂ hx₁ hx₂
    obtain ⟨e₁', he₁', hor₁⟩ := doomed_of_get?_modify he₁
    obtain ⟨e₂', he₂', hor₂⟩ := doomed_of_get?_modify he₂
    rcases hmem hor₁ hx₁ with hx₁ | ⟨hb₁, rfl⟩
    · rcases hmem hor₂ hx₂ with hx₂ | ⟨-, rfl⟩
      · exact h.home b₁ e₁' b₂ e₂' x he₁' he₂' hx₁ hx₂
      · exact absurd hx₁ (hfree b₁ e₁' he₁')
    · rcases hmem hor₂ hx₂ with hx₂ | ⟨hb₂, -⟩
      · exact absurd hx₂ (hfree b₂ e₂' he₂')
      · exact hb₁.trans hb₂.symm
  · intro b' e' he'
    obtain ⟨e, he, hval, -⟩ := of_get?_modify_instructions he'
    rw [hval]
    exact h.block_value b' e he
  · intro b' e' he' i hi
    obtain ⟨e, he, -, hins | ⟨rfl, hins⟩⟩ := of_get?_modify_instructions he'
    · exact h.parent b' e he i (hins ▸ hi)
    · rw [hins] at hi
      rcases List.mem_append.mp hi with hi | hi
      · exact h.parent b' e he i hi
      · obtain rfl := List.mem_singleton.mp hi
        exact ⟨ve, hv, hpar⟩
  · intro f b' hb'
    obtain ⟨e, he, hf⟩ := h.layout_home f b' hb'
    show ∃ e', (g.blocks.modify b _).get? b' = some e' ∧ _
    rw [Table.get?_modify]
    split
    · next heq =>
      subst heq
      rw [he]
      exact ⟨_, rfl, hf⟩
    · exact ⟨e, he, hf⟩

/-! ## Building -/

theorem Placed.alloc (h : g.Placed) : g.alloc.2.Placed :=
  h.of_eq (Nat.le_succ _) rfl rfl rfl

/-- An address that is handed out belongs to no block. -/
theorem Placed.alloc_not_mem_doomed (h : g.Placed) {b : BlockRef} {e : BlockEntry}
    (he : g.blocks.get? b = some e) : (⟨g.alloc.1⟩ : ValueRef) ∉ e.doomed :=
  fun hm => not_handed_alloc g (h.doomed_handed b e he _ hm)

theorem Placed.newValue (h : g.Placed) (ve : ValueEntry) : (g.newValue ve).2.Placed :=
  h.alloc.insertValue ve fun _ _ he => h.alloc_not_mem_doomed he

theorem Placed.intType (h : g.Placed) (cx : ContextRef) (width : Nat) :
    (g.intType cx width).2.Placed := by
  unfold Graph.intType
  split
  · exact h
  · exact h.of_eq (Nat.le_succ _) rfl rfl rfl

theorem Placed.function (h : g.Placed) : g.function.2.Placed :=
  (h.newValue _).setLayout List.nodup_nil fun _ hb => nomatch hb

theorem Placed.reuse (h : g.Placed) (dead : ValueRef) (probes : List Probe) :
    ((g.reuseAddress dead probes).getD g).Placed := by
  unfold reuseAddress
  split
  · exact h
  · next hc =>
    refine h.insertValue _ fun b e he hm => hc ?_
    exact Option.isSome_iff_exists.mpr (h.living he hm)

theorem Placed.addUse (h : g.Placed) (used user : ValueRef) : (g.addUse used user).2.Placed := by
  have hm := h.alloc.modifyValue used
    (f := fun e => { e with uses := e.uses ++ [⟨g.alloc.1⟩] }) fun _ => rfl
  exact hm.of_eq (Nat.le_refl _) rfl rfl rfl

theorem Placed.newBlock (h : g.Placed) (f : ValueRef) (name : String) :
    (g.newBlock f name).2.Placed := by
  let shape : ValueEntry := { probes := [.basicBlock], name }
  refine (h.newValue shape).addBlock f (get?_newValue g shape) (handed_alloc g) ?_
  exact fun _ _ he => h.alloc_not_mem_doomed he

/-- A new block is a living one of its function, and is in no layout yet. -/
theorem Placed.get?_newBlock (h : g.Placed) (f : ValueRef) (name : String) :
    (∃ e, (g.newBlock f name).2.blocks.get? (g.newBlock f name).1 = some e ∧ e.function = f) ∧
      ∀ f', (g.newBlock f name).1 ∉ (g.newBlock f name).2.layout f' := by
  refine ⟨⟨_, (Table.get?_insert _ _ _ _).trans (if_pos rfl), rfl⟩, fun f' hm => ?_⟩
  let shape : ValueEntry := { probes := [.basicBlock], name }
  obtain ⟨e, he, -⟩ := h.layout_home f' _ hm
  have hh : (g.newValue shape).2.Handed (g.newBlock f name).1.address :=
    (h.block_handed _ e he).mono (Nat.le_succ _)
  exact not_handed_alloc (g.newValue shape).2 hh

theorem Placed.appendBlock (h : g.Placed) (f : ValueRef) (name : String) :
    (g.appendBlock f name).2.Placed := by
  have hn := h.newBlock f name
  obtain ⟨hb, hfree⟩ := h.get?_newBlock f name
  refine hn.setLayout ?_ ?_
  · rw [← List.concat_eq_append]
    exact (hn.layout_nodup f).concat (hfree f)
  · intro b hm
    rcases List.mem_append.mp hm with hm | hm
    · exact hn.layout_home f b hm
    · exact List.mem_singleton.mp hm ▸ hb

theorem Placed.instruction (h : g.Placed) (b : BlockRef) (probes : List Probe) (opcode : Opcode) :
    (g.instruction b probes opcode).2.Placed :=
  (h.newValue _).addInstruction (get?_newValue g _) rfl (handed_alloc g)
    fun _ _ he => h.alloc_not_mem_doomed he

/-- What every new use by a branch keeps, its edges keep. -/
theorem addEdges_kept {P : Graph → Prop} {term : ValueRef}
    (hu : ∀ (g : Graph) (used : ValueRef), P g → P (g.addUse used term).2) (h : P g)
    (targets : List BlockRef) : P (targets.foldl (addEdge term) g) := by
  induction targets generalizing g with
  | nil => exact h
  | cons b bs ih =>
    refine ih ?_
    unfold addEdge
    split
    · exact hu g _ h
    · exact h

theorem Placed.branch (h : g.Placed) (b : BlockRef) (targets : List BlockRef) :
    (g.branch b targets).2.Placed := by
  have h1 := h.instruction b [.terminatorInst, .branchInst] .br
  have h2 := h1.modifyValue (g.instruction b [.terminatorInst, .branchInst] .br).1
    (f := fun e => { e with successors := targets }) fun _ => rfl
  exact addEdges_kept (fun _ used h => h.addUse used _) h2 targets

/-! ## Calls -/

theorem blockPosition?_eq_some_iff {b : BlockRef} {f : ValueRef} {i : Nat} :
    g.blockPosition? b = some (f, i) ↔
      ∃ e, g.blocks.get? b = some e ∧ e.function = f ∧ (g.layout f).idxOf? b = some i := by
  unfold blockPosition?
  cases g.blocks.get? b with
  | none => simp
  | some e =>
    simp only [Option.bind_eq_bind, Option.bind_some, Option.some.injEq, exists_eq_left']
    constructor
    · intro h
      obtain ⟨j, hj, hp⟩ := Option.bind_eq_some_iff.mp h
      obtain ⟨rfl, rfl⟩ := Prod.mk.inj (Option.some.inj hp)
      exact ⟨rfl, hj⟩
    · rintro ⟨rfl, hi⟩
      rw [hi]
      rfl

/-- Taking a block out of its layout, where it stands once. -/
theorem Placed.detachBlock?_eq (h : g.Placed) {b : BlockRef} {f : ValueRef}
    (hd : g.detachBlock? b = some (f, g')) :
    (∃ e, g.blocks.get? b = some e ∧ e.function = f) ∧
      g' = { g with layouts := g.layouts.insert f ((g.layout f).filter (· != b)) } := by
  unfold detachBlock? at hd
  obtain ⟨⟨f', i⟩, hp, heq⟩ := Option.bind_eq_some_iff.mp hd
  obtain ⟨rfl, rfl⟩ := Prod.mk.inj (Option.some.inj heq)
  obtain ⟨e, hb, hf, hi⟩ := blockPosition?_eq_some_iff.mp hp
  have herase : (g.layout f').erase b = (g.layout f').eraseIdx i := by
    rw [List.erase_eq_eraseIdx, hi]
  refine ⟨⟨e, hb, hf⟩, ?_⟩
  rw [← herase, (h.layout_nodup f').erase_eq_filter]

theorem Placed.moveBlock (h : g.Placed) (b position : BlockRef) (offset : Nat) :
    (g.moveBlock b position offset).2.Placed := by
  unfold Graph.moveBlock
  split
  · exact h
  · next f g₁ hd =>
    obtain ⟨hb, rfl⟩ := h.detachBlock?_eq hd
    let rest := (g.layout f).filter (· != b)
    -- The block is out of its layout from here on, also where the move ends early or traps.
    have hout : Placed { g with layouts := g.layouts.insert f rest } :=
      h.setLayout ((h.layout_nodup f).filter _)
        fun b' hm => h.layout_home f b' (List.mem_filter.mp hm).1
    have hrest : layout { g with layouts := g.layouts.insert f rest } f = rest := by
      rw [layout, Table.get?_insert, if_pos rfl]
      rfl
    split
    · exact hout
    · next index _ =>
      dsimp only
      rw [hrest]
      split
      · exact hout
      · next hlen =>
        have hle : index + offset ≤ rest.length := Nat.le_of_not_lt hlen
        refine hout.setLayout ?_ ?_
        · rw [(List.perm_insertIdx b rest hle).nodup_iff, List.nodup_cons]
          refine ⟨fun hm => ?_, hrest ▸ hout.layout_nodup f⟩
          simpa using (List.mem_filter.mp hm).2
        · intro b' hm
          rcases (List.mem_insertIdx hle).mp hm with rfl | hm
          · exact hb
          · exact h.layout_home f b' (List.mem_filter.mp hm).1

theorem Placed.insertBlockBefore (h : g.Placed) (before : BlockRef) (name : String) :
    (g.insertBlockBefore before name).2.Placed := by
  unfold Graph.insertBlockBefore
  split
  · exact h
  · next f index hpos =>
    have hn := h.newBlock f name
    obtain ⟨hb, hfree⟩ := h.get?_newBlock f name
    have hle : index ≤ ((g.newBlock f name).2.layout f).length := by
      obtain ⟨e, -, -, hi⟩ := blockPosition?_eq_some_iff.mp hpos
      obtain ⟨hlt, -⟩ := List.idxOf?_eq_some_iff.mp hi
      exact Nat.le_of_lt hlt
    refine hn.setLayout ?_ ?_
    · rw [(List.perm_insertIdx _ _ hle).nodup_iff, List.nodup_cons]
      exact ⟨hfree f, hn.layout_nodup f⟩
    · intro b' hm
      rcases (List.mem_insertIdx hle).mp hm with rfl | hm
      · exact hb
      · exact hn.layout_home f b' hm

/-- The layouts after a deletion: the block is in none, and nothing else has changed. -/
theorem Placed.layout_deleteBlock (h : g.Placed) {b : BlockRef} {e : BlockEntry}
    (hb : g.blocks.get? b = some e) (f : ValueRef) :
    (g.deleteBlock b).layout f =
      if f = e.function then (g.layout f).filter (· != b) else g.layout f := by
  unfold deleteBlock
  cases hd : g.detachBlock? b with
  | none =>
    simp only [Option.map_none, Option.getD_none, hb]
    split
    · next hf =>
      -- A block that cannot be taken out is in no layout, its own function's included.
      have hn : b ∉ g.layout f := by
        rw [← List.idxOf?_eq_none_iff, Option.eq_none_iff_forall_ne_some]
        intro i hi
        have hp := blockPosition?_eq_some_iff.mpr ⟨e, hb, hf.symm, hi⟩
        rw [detachBlock?, hp] at hd
        cases hd
      refine (List.filter_eq_self.mpr fun b' hb' => ?_).symm
      exact bne_iff_ne.mpr fun heq => hn (heq ▸ hb')
    · rfl
  | some p =>
    obtain ⟨f', g'⟩ := p
    obtain ⟨⟨e', he', rfl⟩, rfl⟩ := h.detachBlock?_eq hd
    obtain rfl := Option.some.inj (hb.symm.trans he')
    simp only [Option.map_some, Option.getD_some, hb]
    rw [layout, Table.get?_insert]
    split
    · next hf =>
      subst hf
      rfl
    · rfl

theorem Placed.deleteBlock (h : g.Placed) {b : BlockRef} {e : BlockEntry}
    (hb : g.blocks.get? b = some e) : (g.deleteBlock b).Placed := by
  have hblock {b' : BlockRef} {e' : BlockEntry} :
      (g.deleteBlock b).blocks.get? b' = some e' → b' ≠ b ∧ g.blocks.get? b' = some e' :=
    of_get?_blocks_deleteBlock hb
  have hvalue {b' : BlockRef} {e' : BlockEntry} (hne : b' ≠ b) (he' : g.blocks.get? b' = some e')
      {v : ValueRef} (hv : v ∈ e'.doomed) :
      (g.deleteBlock b).values.get? v = g.values.get? v := by
    have hn : v ∉ e.doomed := fun hv' => hne (h.home b' e' b e v he' hb hv hv')
    rw [get?_values_deleteBlock hb, if_neg hn]
  have halloc := Nat.le_of_eq (allocated_deleteBlock hb).symm
  refine ⟨?_, ?_, ?_, ?_, ?_, ?_, ?_, ?_⟩
  · intro b' e' he'
    exact (h.block_handed b' e' (hblock he').2).mono halloc
  · intro b' e' he' v hv
    exact (h.doomed_handed b' e' (hblock he').2 v hv).mono halloc
  · intro b' e' he'
    exact h.doomed_nodup b' e' (hblock he').2
  · intro b₁ e₁ b₂ e₂ v h₁ h₂
    exact h.home b₁ e₁ b₂ e₂ v (hblock h₁).2 (hblock h₂).2
  · intro b' e' he'
    obtain ⟨hne, he'⟩ := hblock he'
    rw [hvalue hne he' List.mem_cons_self]
    exact h.block_value b' e' he'
  · intro b' e' he' i hi
    obtain ⟨hne, he'⟩ := hblock he'
    rw [hvalue hne he' (List.mem_cons_of_mem _ hi)]
    exact h.parent b' e' he' i hi
  · intro f
    rw [h.layout_deleteBlock hb]
    split
    · exact (h.layout_nodup f).filter _
    · exact h.layout_nodup f
  · intro f b' hm
    have hin : b' ∈ g.layout f ∧ (f = e.function → b' ≠ b) := by
      rw [h.layout_deleteBlock hb] at hm
      split at hm
      · obtain ⟨hm, hne⟩ := List.mem_filter.mp hm
        exact ⟨hm, fun _ => bne_iff_ne.mp hne⟩
      · next hf => exact ⟨hm, fun hf' => absurd hf' hf⟩
    obtain ⟨e', he', hf⟩ := h.layout_home f b' hin.1
    -- The block itself could only stand in the layout of its own function.
    have hne : b' ≠ b := by
      intro heq
      subst heq
      obtain rfl := Option.some.inj (hb.symm.trans he')
      exact hin.2 hf.symm rfl
    exact ⟨e', by rw [get?_blocks_deleteBlock hb, if_neg hne]; exact he', hf⟩

/-- Every call keeps everything in its place. -/
theorem Placed.perform (h : g.Placed) (c : Call) : (g.perform c).2.Placed := by
  cases c with
  | createContext => exact h.alloc
  | disposeContext cx => exact h.of_eq (Nat.le_refl _) rfl rfl rfl
  | setValueName v name => exact h.modifyValue v fun _ => rfl
  | setVolatile v flag => exact h.modifyValue v fun _ => rfl
  | moveBlockBefore b position => exact h.moveBlock b position 0
  | moveBlockAfter b position => exact h.moveBlock b position 1
  | insertBlockBefore cx before name => exact h.insertBlockBefore before name
  | deleteBlock b =>
    show (g.deleteBlock b).Placed
    cases hb : g.blocks.get? b with
    | some e => exact h.deleteBlock hb
    | none =>
      have hp : g.detachBlock? b = none := by
        rw [detachBlock?, blockPosition?, hb]
        rfl
      have hd : g.deleteBlock b = g := by
        rw [Graph.deleteBlock, hp]
        simp only [Option.map_none, Option.getD_none, hb]
      rw [hd]
      exact h
  | _ => exact h

end Graph

/-- So does every change past the bindings. -/
theorem Change.placed {g : Graph} (h : g.Placed) (x : Change) : (x.apply g).Placed := by
  cases x with
  | newContext => exact h.alloc
  | newType entry => exact h.of_eq (Nat.le_succ _) rfl rfl rfl
  | intType cx width => exact h.intType cx width
  | newValue entry => exact h.newValue entry
  | function => exact h.function
  | setType v ty => exact h.modifyValue v fun _ => rfl
  | setPredicate v n => exact h.modifyValue v fun _ => rfl
  | addUse used user => exact h.addUse used user
  | appendBlock f name => exact h.appendBlock f name
  | instruction b probes opcode => exact h.instruction b probes opcode
  | branch b targets => exact h.branch b targets

end CanonIR.Memory
