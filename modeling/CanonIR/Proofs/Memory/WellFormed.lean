import CanonIR.Memory.Library
import CanonIR.Proofs.Table

/-!
Well-formed graphs. The objects of a graph stand at addresses that were handed out, a block has a
value shape of its own, and its instructions are living values that point back to it. Every change
of a graph but a deletion keeps that, and keeps what decides the kinds of the objects
(`Evolves`).
-/

namespace CanonIR.Memory.Graph

/-- Whether an address was handed out. -/
def Handed (g : Graph) (a : Nat) : Prop :=
  ∃ k, 1 ≤ k ∧ k ≤ g.allocated ∧ a = baseAddress + k * stride

/-- Addresses are handed out in order. -/
theorem handed_iff {g : Graph} {a : Nat} :
    g.Handed a ↔ a ∈ (List.range g.allocated).map fun k => baseAddress + (k + 1) * stride := by
  rw [List.mem_map]
  constructor
  · intro h
    obtain ⟨k, h1, hk, rfl⟩ := h
    exact ⟨k - 1, List.mem_range.mpr (by omega), by rw [Nat.sub_add_cancel h1]⟩
  · intro h
    obtain ⟨k, hk, rfl⟩ := h
    exact ⟨k + 1, Nat.succ_le_succ (Nat.zero_le k), List.mem_range.mp hk, rfl⟩

instance (g : Graph) (a : Nat) : Decidable (g.Handed a) := decidable_of_iff _ handed_iff.symm

theorem Handed.mono {g g' : Graph} {a : Nat} (h : g.Handed a) (hg : g.allocated ≤ g'.allocated) :
    g'.Handed a := by
  obtain ⟨k, h1, hk, ha⟩ := h
  exact ⟨k, h1, Nat.le_trans hk hg, ha⟩

theorem Handed.ne_zero {g : Graph} {a : Nat} (h : g.Handed a) : a ≠ 0 := by
  obtain ⟨k, -, -, rfl⟩ := h
  unfold baseAddress
  omega

theorem handed_alloc (g : Graph) : g.alloc.2.Handed g.alloc.1 :=
  ⟨g.allocated + 1, Nat.succ_le_succ (Nat.zero_le _), Nat.le_refl _, rfl⟩

/-- An address is handed out once. -/
theorem not_handed_alloc (g : Graph) : ¬ g.Handed g.alloc.1 := by
  intro hx
  obtain ⟨k, -, hk, ha⟩ := hx
  have h : baseAddress + (g.allocated + 1) * stride = baseAddress + k * stride := ha
  unfold stride at h
  omega

/-- What every graph that was built up from nothing satisfies. -/
structure WellFormed (g : Graph) : Prop where
  type_handed : ∀ ty e, g.types.get? ty = some e → g.Handed ty.address
  value_handed : ∀ v e, g.values.get? v = some e → g.Handed v.address
  block_handed : ∀ b e, g.blocks.get? b = some e → g.Handed b.address
  block_value : ∀ b e, g.blocks.get? b = some e →
    ∃ ve, g.values.get? e.value = some ve ∧ ve.probes = [.basicBlock] ∧ ve.parent = .null
  block_unique : ∀ b e b' e', g.blocks.get? b = some e → g.blocks.get? b' = some e' →
    e.value = e'.value → b = b'
  instructions_nodup : ∀ b e, g.blocks.get? b = some e → e.instructions.Nodup
  instruction : ∀ b e, g.blocks.get? b = some e → ∀ i ∈ e.instructions,
    ∃ ve, g.values.get? i = some ve ∧ ve.parent = b

/-- What a change that deletes nothing keeps: what the kinds of types and values depend on, and the
value shapes of blocks. New blocks stand at new addresses. -/
structure Extends (g g' : Graph) : Prop where
  allocated_le : g.allocated ≤ g'.allocated
  types : ∀ ty e, g.types.get? ty = some e → g'.types.get? ty = some e
  values : ∀ v e, g.values.get? v = some e →
    ∃ e', g'.values.get? v = some e' ∧ e'.probes = e.probes ∧ e'.opcode = e.opcode
  blocks : ∀ b e', g'.blocks.get? b = some e' → g.Handed b.address →
    ∃ e, g.blocks.get? b = some e ∧ e'.value = e.value

/-- A change that deletes nothing and keeps the graph well formed. -/
structure Evolves (g g' : Graph) : Prop where
  wellFormed : g'.WellFormed
  keeps : g.Extends g'

theorem wellFormed_empty : WellFormed {} where
  type_handed _ _ h := nomatch h
  value_handed _ _ h := nomatch h
  block_handed _ _ h := nomatch h
  block_value _ _ h := nomatch h
  block_unique _ _ _ _ h := nomatch h
  instructions_nodup _ _ h := nomatch h
  instruction _ _ h := nomatch h

variable {g g' g'' : Graph}

theorem Extends.refl (g : Graph) : g.Extends g where
  allocated_le := Nat.le_refl _
  types _ _ h := h
  values _ e h := ⟨e, h, rfl, rfl⟩
  blocks _ e h _ := ⟨e, h, rfl⟩

theorem Extends.trans (h : g.Extends g') (h' : g'.Extends g'') : g.Extends g'' where
  allocated_le := Nat.le_trans h.allocated_le h'.allocated_le
  types ty e he := h'.types ty e (h.types ty e he)
  values v e he := by
    obtain ⟨e', he', hp, ho⟩ := h.values v e he
    obtain ⟨e'', he'', hp', ho'⟩ := h'.values v e' he'
    exact ⟨e'', he'', hp'.trans hp, ho'.trans ho⟩
  blocks b e'' he'' hb := by
    obtain ⟨e', he', hv⟩ := h'.blocks b e'' he'' (hb.mono h.allocated_le)
    obtain ⟨e, he, hv'⟩ := h.blocks b e' he' hb
    exact ⟨e, he, hv.trans hv'⟩

theorem Evolves.refl (h : g.WellFormed) : g.Evolves g := ⟨h, .refl g⟩

theorem Evolves.trans (h : g.Evolves g') (h' : g'.Evolves g'') : g.Evolves g'' :=
  ⟨h'.wellFormed, h.keeps.trans h'.keeps⟩

/-! ## Elementary changes -/

/-- A change that touches no types, values or blocks. -/
theorem evolves_of_eq (h : g.WellFormed) (ha : g.allocated ≤ g'.allocated)
    (ht : g'.types = g.types) (hv : g'.values = g.values) (hb : g'.blocks = g.blocks) :
    g.Evolves g' := by
  obtain ⟨h1, h2, h3, h4, h5, h6, h7⟩ := h
  refine ⟨⟨?_, ?_, ?_, ?_, ?_, ?_, ?_⟩, ⟨ha, ?_, ?_, ?_⟩⟩
  · rw [ht]
    exact fun ty e he => (h1 ty e he).mono ha
  · rw [hv]
    exact fun v e he => (h2 v e he).mono ha
  · rw [hb]
    exact fun b e he => (h3 b e he).mono ha
  · rw [hb, hv]
    exact h4
  · rw [hb]
    exact h5
  · rw [hb]
    exact h6
  · rw [hb, hv]
    exact h7
  · rw [ht]
    exact fun _ _ he => he
  · rw [hv]
    exact fun _ e he => ⟨e, he, rfl, rfl⟩
  · rw [hb]
    exact fun _ e he _ => ⟨e, he, rfl⟩

theorem evolves_alloc (h : g.WellFormed) : g.Evolves g.alloc.2 :=
  evolves_of_eq h (Nat.le_succ _) rfl rfl rfl

theorem evolves_insertType (h : g.WellFormed) {ty : TypeRef} (e : TypeEntry)
    (hfree : g.types.get? ty = none) (hty : g.Handed ty.address) :
    g.Evolves { g with types := g.types.insert ty e } where
  wellFormed :=
    { h with
      type_handed := fun ty' e' he' => by
        rcases Table.get?_of_get?_insert he' with ⟨rfl, -⟩ | ⟨-, he'⟩
        · exact hty
        · exact h.type_handed ty' e' he' }
  keeps :=
    { Extends.refl g with
      types := fun ty' e' he' => by
        have hne : ty' ≠ ty := by
          intro heq
          subst heq
          rw [hfree] at he'
          exact nomatch he'
        rw [Table.get?_insert, if_neg hne]
        exact he' }

/-- A new value at an address that was handed out, and that no living value has. -/
theorem evolves_insertValue (h : g.WellFormed) {v : ValueRef} (e : ValueEntry)
    (hfree : g.values.get? v = none) (hv : g.Handed v.address) :
    g.Evolves { g with values := g.values.insert v e } := by
  have hold {v' : ValueRef} {e' : ValueEntry} (he' : g.values.get? v' = some e') :
      (g.values.insert v e).get? v' = some e' := by
    have hne : v' ≠ v := by
      intro heq
      subst heq
      rw [hfree] at he'
      exact nomatch he'
    rw [Table.get?_insert, if_neg hne]
    exact he'
  refine ⟨{ h with value_handed := ?_, block_value := ?_, instruction := ?_ },
    { Extends.refl g with values := ?_ }⟩
  · intro v' e' he'
    rcases Table.get?_of_get?_insert he' with ⟨rfl, -⟩ | ⟨-, he'⟩
    · exact hv
    · exact h.value_handed v' e' he'
  · intro b be hb
    obtain ⟨ve, hve, hp⟩ := h.block_value b be hb
    exact ⟨ve, hold hve, hp⟩
  · intro b be hb i hi
    obtain ⟨ve, hve, hp⟩ := h.instruction b be hb i hi
    exact ⟨ve, hold hve, hp⟩
  · exact fun v' e' he' => ⟨e', hold he', rfl, rfl⟩

/-- A change of a value that touches neither its classes nor its opcode nor its block. -/
theorem evolves_modifyValue (h : g.WellFormed) (v : ValueRef) {f : ValueEntry → ValueEntry}
    (hf : ∀ e, (f e).probes = e.probes ∧ (f e).opcode = e.opcode ∧ (f e).parent = e.parent) :
    g.Evolves { g with values := g.values.modify v f } := by
  have hold {v' : ValueRef} {e' : ValueEntry} (he' : g.values.get? v' = some e') :
      ∃ e'', (g.values.modify v f).get? v' = some e'' ∧ e''.probes = e'.probes ∧
        e''.opcode = e'.opcode ∧ e''.parent = e'.parent := by
    rw [Table.get?_modify]
    split
    · next hv =>
      subst hv
      exact ⟨f e', by rw [he']; rfl, hf e'⟩
    · exact ⟨e', he', rfl, rfl, rfl⟩
  refine ⟨{ h with value_handed := ?_, block_value := ?_, instruction := ?_ },
    { Extends.refl g with values := ?_ }⟩
  · intro v' e' he'
    rw [Table.get?_modify] at he'
    split at he'
    · next hv =>
      subst hv
      obtain ⟨e, he, -⟩ := Option.map_eq_some_iff.mp he'
      exact h.value_handed v' e he
    · exact h.value_handed v' e' he'
  · intro b be hb
    obtain ⟨ve, hve, hp, hpar⟩ := h.block_value b be hb
    obtain ⟨ve', hve', hp', -, hpar'⟩ := hold hve
    exact ⟨ve', hve', hp'.trans hp, hpar'.trans hpar⟩
  · intro b be hb i hi
    obtain ⟨ve, hve, hpar⟩ := h.instruction b be hb i hi
    obtain ⟨ve', hve', -, -, hpar'⟩ := hold hve
    exact ⟨ve', hve', hpar'.trans hpar⟩
  · intro v' e' he'
    obtain ⟨e'', he'', hp, ho, -⟩ := hold he'
    exact ⟨e'', he'', hp, ho⟩

/-- A new block with a value shape that no block has. -/
theorem evolves_addBlock (h : g.WellFormed) {v : ValueRef} {ve : ValueEntry} (f : ValueRef)
    (hv : g.values.get? v = some ve) (hp : ve.probes = [.basicBlock]) (hpar : ve.parent = .null)
    (hfree : ∀ b e, g.blocks.get? b = some e → e.value ≠ v) :
    g.Evolves { g.alloc.2 with blocks := g.blocks.insert ⟨g.alloc.1⟩ ⟨v, f, []⟩ } := by
  have h1 := evolves_alloc h
  refine ⟨{ h1.wellFormed with
    block_handed := ?_, block_value := ?_, block_unique := ?_, instructions_nodup := ?_,
    instruction := ?_ }, { h1.keeps with blocks := ?_ }⟩
  · intro b e he
    rcases Table.get?_of_get?_insert he with ⟨rfl, -⟩ | ⟨-, he⟩
    · exact handed_alloc g
    · exact h1.wellFormed.block_handed b e he
  · intro b e he
    rcases Table.get?_of_get?_insert he with ⟨-, rfl⟩ | ⟨-, he⟩
    · exact ⟨ve, hv, hp, hpar⟩
    · exact h.block_value b e he
  · intro b e b' e' he he' hval
    rcases Table.get?_of_get?_insert he with ⟨rfl, rfl⟩ | ⟨-, he⟩ <;>
      rcases Table.get?_of_get?_insert he' with ⟨rfl, rfl⟩ | ⟨-, he'⟩
    · rfl
    · exact absurd hval.symm (hfree b' e' he')
    · exact absurd hval (hfree b e he)
    · exact h.block_unique b e b' e' he he' hval
  · intro b e he
    rcases Table.get?_of_get?_insert he with ⟨-, rfl⟩ | ⟨-, he⟩
    · exact List.nodup_nil
    · exact h.instructions_nodup b e he
  · intro b e he i hi
    rcases Table.get?_of_get?_insert he with ⟨-, rfl⟩ | ⟨-, he⟩
    · exact absurd hi List.not_mem_nil
    · exact h.instruction b e he i hi
  · intro b e he hb
    rcases Table.get?_of_get?_insert he with ⟨rfl, -⟩ | ⟨-, he⟩
    · exact absurd hb (not_handed_alloc g)
    · exact ⟨e, he, rfl⟩

/-- A block with one more instruction at its end is what it was apart from that. -/
theorem of_get?_modify_instructions {b b' : BlockRef} {v : ValueRef} {e' : BlockEntry}
    (he' : (g.blocks.modify b fun e => { e with instructions := e.instructions ++ [v] }).get? b' =
      some e') :
    ∃ e, g.blocks.get? b' = some e ∧ e'.value = e.value ∧
      (e'.instructions = e.instructions ∨ b' = b ∧ e'.instructions = e.instructions ++ [v]) := by
  rw [Table.get?_modify] at he'
  split at he'
  · next hb =>
    obtain ⟨e, he, rfl⟩ := Option.map_eq_some_iff.mp he'
    exact ⟨e, hb ▸ he, rfl, Or.inr ⟨hb, rfl⟩⟩
  · exact ⟨e', he', rfl, Or.inl rfl⟩

/-- A value that points to a block and is in none is put at its end. -/
theorem evolves_addInstruction (h : g.WellFormed) {b : BlockRef} {v : ValueRef} {ve : ValueEntry}
    (hv : g.values.get? v = some ve) (hpar : ve.parent = b)
    (hfree : ∀ b' e, g.blocks.get? b' = some e → v ∉ e.instructions) :
    g.Evolves { g with
      blocks := g.blocks.modify b fun e => { e with instructions := e.instructions ++ [v] } } := by
  refine ⟨{ h with
    block_handed := ?_, block_value := ?_, block_unique := ?_, instructions_nodup := ?_,
    instruction := ?_ }, { Extends.refl g with blocks := ?_ }⟩
  · intro b' e' he'
    obtain ⟨e, he, -⟩ := of_get?_modify_instructions he'
    exact h.block_handed b' e he
  · intro b' e' he'
    obtain ⟨e, he, hval, -⟩ := of_get?_modify_instructions he'
    rw [hval]
    exact h.block_value b' e he
  · intro b' e' b'' e'' he' he'' hval
    obtain ⟨e₁, he₁, hv₁, -⟩ := of_get?_modify_instructions he'
    obtain ⟨e₂, he₂, hv₂, -⟩ := of_get?_modify_instructions he''
    exact h.block_unique b' e₁ b'' e₂ he₁ he₂ (hv₁.symm.trans (hval.trans hv₂))
  · intro b' e' he'
    obtain ⟨e, he, -, hi | ⟨-, hi⟩⟩ := of_get?_modify_instructions he'
    · rw [hi]
      exact h.instructions_nodup b' e he
    · rw [hi, ← List.concat_eq_append]
      exact (h.instructions_nodup b' e he).concat (hfree b' e he)
  · intro b' e' he' i hi
    obtain ⟨e, he, -, hi' | ⟨rfl, hi'⟩⟩ := of_get?_modify_instructions he'
    · rw [hi'] at hi
      exact h.instruction b' e he i hi
    · rw [hi', List.mem_append, List.mem_singleton] at hi
      rcases hi with hi | rfl
      · exact h.instruction b' e he i hi
      · exact ⟨ve, hv, hpar⟩
  · intro b' e' he' _
    obtain ⟨e, he, hval, -⟩ := of_get?_modify_instructions he'
    exact ⟨e, he, hval⟩

/-! ## Building -/

theorem evolves_newContext (h : g.WellFormed) : g.Evolves g.newContext.2 := evolves_alloc h

theorem evolves_newType (h : g.WellFormed) (e : TypeEntry) : g.Evolves (g.newType e).2 := by
  refine (evolves_alloc h).trans (evolves_insertType (evolves_alloc h).wellFormed e ?_ ?_)
  · rw [Option.eq_none_iff_forall_ne_some]
    exact fun e' he' => not_handed_alloc g (h.type_handed _ e' he')
  · exact handed_alloc g

theorem evolves_intType (h : g.WellFormed) (cx : ContextRef) (width : Nat) :
    g.Evolves (g.intType cx width).2 := by
  unfold intType
  split
  · exact Evolves.refl h
  · have hn := evolves_newType h ⟨TypeKind.integer.number, width⟩
    exact hn.trans (evolves_of_eq hn.wellFormed (Nat.le_refl _) rfl rfl rfl)

/-- The address of a new value is not one of a living value. -/
theorem get?_alloc_values (h : g.WellFormed) : g.values.get? ⟨g.alloc.1⟩ = none := by
  rw [Option.eq_none_iff_forall_ne_some]
  exact fun e he => not_handed_alloc g (h.value_handed _ e he)

theorem evolves_newValue (h : g.WellFormed) (e : ValueEntry) : g.Evolves (g.newValue e).2 :=
  (evolves_alloc h).trans
    (evolves_insertValue (evolves_alloc h).wellFormed e (get?_alloc_values h) (handed_alloc g))

theorem evolves_function (h : g.WellFormed) : g.Evolves g.function.2 := by
  have hn := evolves_newValue h { probes := [.user, .constant, .globalValue, .globalObject, .function] }
  exact hn.trans (evolves_of_eq hn.wellFormed (Nat.le_refl _) rfl rfl rfl)

theorem evolves_reuseAddress (h : g.WellFormed) {dead : ValueRef} {probes : List Probe}
    (hd : g.Handed dead.address) (hr : g.reuseAddress dead probes = some g') : g.Evolves g' := by
  unfold reuseAddress at hr
  split at hr
  · exact nomatch hr
  · next hc =>
    obtain rfl := Option.some.inj hr
    exact evolves_insertValue h _ (by simpa [Table.contains] using hc) hd

theorem evolves_addUse (h : g.WellFormed) (used user : ValueRef) :
    g.Evolves (g.addUse used user).2 := by
  have h1 := evolves_alloc h
  have h2 := h1.trans (evolves_modifyValue h1.wellFormed used
    (f := fun e => { e with uses := e.uses ++ [⟨g.alloc.1⟩] }) fun _ => ⟨rfl, rfl, rfl⟩)
  exact h2.trans (evolves_of_eq h2.wellFormed (Nat.le_refl _) rfl rfl rfl)

theorem get?_newValue (g : Graph) (e : ValueEntry) :
    (g.newValue e).2.values.get? (g.newValue e).1 = some e :=
  (Table.get?_insert _ _ _ _).trans (if_pos rfl)

/-- A new value is none of the old ones. -/
theorem ne_newValue (h : g.WellFormed) {v : ValueRef} {ve : ValueEntry}
    (hv : g.values.get? v = some ve) : v ≠ ⟨g.alloc.1⟩ := by
  intro heq
  rw [heq, get?_alloc_values h] at hv
  contradiction

theorem evolves_newBlock (h : g.WellFormed) (f : ValueRef) (name : String) :
    g.Evolves (g.newBlock f name).2 := by
  let shape : ValueEntry := { probes := [.basicBlock], name }
  have h1 : g.Evolves (g.newValue shape).2 := evolves_newValue h shape
  refine h1.trans (evolves_addBlock h1.wellFormed f (get?_newValue g shape) rfl rfl ?_)
  intro b e he
  obtain ⟨ve, hve, -⟩ := h.block_value b e he
  exact ne_newValue h hve

theorem evolves_appendBlock (h : g.WellFormed) (f : ValueRef) (name : String) :
    g.Evolves (g.appendBlock f name).2 := by
  have hn := evolves_newBlock h f name
  exact hn.trans (evolves_of_eq hn.wellFormed (Nat.le_refl _) rfl rfl rfl)

theorem evolves_instruction (h : g.WellFormed) (b : BlockRef) (probes : List Probe)
    (opcode : Opcode) : g.Evolves (g.instruction b probes opcode).2 := by
  let entry : ValueEntry :=
    { probes := .user :: .instruction :: probes, opcode := opcode.number, parent := b }
  have h1 : g.Evolves (g.newValue entry).2 := evolves_newValue h entry
  refine h1.trans (evolves_addInstruction h1.wellFormed (get?_newValue g entry) rfl ?_)
  intro b' e he hmem
  obtain ⟨ve, hve, -⟩ := h.instruction b' e he _ hmem
  exact ne_newValue h hve rfl

theorem evolves_addEdge (h : g.WellFormed) (term : ValueRef) (target : BlockRef) :
    g.Evolves (g.addEdge term target) := by
  unfold addEdge
  split
  · exact evolves_addUse h _ term
  · exact Evolves.refl h

theorem evolves_addEdges (h : g.WellFormed) (term : ValueRef) (targets : List BlockRef) :
    g.Evolves (targets.foldl (addEdge term) g) := by
  induction targets generalizing g with
  | nil => exact Evolves.refl h
  | cons b bs ih =>
    have hb := evolves_addEdge h term b
    exact hb.trans (ih hb.wellFormed)

theorem evolves_branch (h : g.WellFormed) (b : BlockRef) (targets : List BlockRef) :
    g.Evolves (g.branch b targets).2 := by
  have h1 := evolves_instruction h b [.terminatorInst, .branchInst] .br
  have h2 := h1.trans (evolves_modifyValue h1.wellFormed
    (g.instruction b [.terminatorInst, .branchInst] .br).1
    (f := fun e => { e with successors := targets }) fun _ => ⟨rfl, rfl, rfl⟩)
  exact h2.trans (evolves_addEdges h2.wellFormed _ targets)

/-! ## Calls -/

theorem evolves_insertBlockBefore (h : g.WellFormed) (before : BlockRef) (name : String) :
    g.Evolves (g.insertBlockBefore before name).2 := by
  unfold insertBlockBefore
  split
  · exact Evolves.refl h
  · next f index _ =>
    have hn := evolves_newBlock h f name
    exact hn.trans (evolves_of_eq hn.wellFormed (Nat.le_refl _) rfl rfl rfl)

/-- Taking a block out of a layout touches nothing but layouts. -/
theorem detachBlock?_eq {b : BlockRef} {f : ValueRef} (hd : g.detachBlock? b = some (f, g')) :
    ∃ layouts, g' = { g with layouts } := by
  unfold detachBlock? at hd
  cases hp : g.blockPosition? b with
  | none =>
    rw [hp] at hd
    exact nomatch hd
  | some p =>
    rw [hp] at hd
    obtain ⟨-, rfl⟩ := Prod.mk.inj (Option.some.inj hd)
    exact ⟨_, rfl⟩

/-- So does a move, however far it gets. -/
theorem moveBlock_eq (g : Graph) (b position : BlockRef) (offset : Nat) :
    ∃ layouts, (g.moveBlock b position offset).2 = { g with layouts } := by
  unfold moveBlock
  split
  · exact ⟨g.layouts, rfl⟩
  · next f g₁ hd =>
    obtain ⟨layouts, rfl⟩ := detachBlock?_eq hd
    split
    · exact ⟨layouts, rfl⟩
    · dsimp only
      split
      · exact ⟨layouts, rfl⟩
      · exact ⟨_, rfl⟩

theorem evolves_moveBlock (h : g.WellFormed) (b position : BlockRef) (offset : Nat) :
    g.Evolves (g.moveBlock b position offset).2 := by
  obtain ⟨layouts, hm⟩ := moveBlock_eq g b position offset
  rw [hm]
  exact evolves_of_eq h (Nat.le_refl _) rfl rfl rfl

/-- Every call but a deletion keeps the graph. -/
theorem evolves_perform (h : g.WellFormed) (c : Call) (hc : ∀ b, c ≠ .deleteBlock b) :
    g.Evolves (g.perform c).2 := by
  cases c with
  | deleteBlock b => exact absurd rfl (hc b)
  | createContext => exact evolves_newContext h
  | disposeContext cx => exact evolves_of_eq h (Nat.le_refl _) rfl rfl rfl
  | setValueName v name => exact evolves_modifyValue h v fun _ => ⟨rfl, rfl, rfl⟩
  | setVolatile v flag => exact evolves_modifyValue h v fun _ => ⟨rfl, rfl, rfl⟩
  | moveBlockBefore b position => exact evolves_moveBlock h b position 0
  | moveBlockAfter b position => exact evolves_moveBlock h b position 1
  | insertBlockBefore cx before name => exact evolves_insertBlockBefore h before name
  | _ => exact Evolves.refl h

end CanonIR.Memory.Graph
