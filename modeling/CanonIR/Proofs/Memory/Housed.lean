import CanonIR.Proofs.Memory.Placed

/-!
Values that stay what they are. Unless an address is used again, a value that lives after a change is
one that lived before, in the same block and with the same probes and opcode, or it stands at an
address that was not handed out before (`Abides`). An address that is used again goes to a value
outside all blocks; so whatever happens to a graph, this is true of the values that stand in blocks
(`Houses`).
-/

namespace CanonIR.Memory

namespace Graph

/-- The values of the second graph are those of the first, or are new. -/
structure Abides (g g' : Graph) : Prop where
  allocated_le : g.allocated ≤ g'.allocated
  values : ∀ v ve', g'.values.get? v = some ve' →
    (∃ ve, g.values.get? v = some ve ∧ ve.parent = ve'.parent ∧ ve.probes = ve'.probes ∧
      ve.opcode = ve'.opcode) ∨ ¬ g.Handed v.address

/-- The values that stand in blocks in the second graph stand there in the first, or are new. -/
structure Houses (g g' : Graph) : Prop where
  allocated_le : g.allocated ≤ g'.allocated
  values : ∀ v ve', g'.values.get? v = some ve' → ve'.parent ≠ .null →
    (∃ ve, g.values.get? v = some ve ∧ ve.parent = ve'.parent ∧ ve.probes = ve'.probes ∧
      ve.opcode = ve'.opcode) ∨ ¬ g.Handed v.address

variable {g g' g'' : Graph}

theorem Abides.trans (h : g.Abides g') (h' : g'.Abides g'') : g.Abides g'' where
  allocated_le := Nat.le_trans h.allocated_le h'.allocated_le
  values v ve'' hve'' := by
    rcases h'.values v ve'' hve'' with ⟨ve', hve', hpar, hprobes, hop⟩ | hn
    · rcases h.values v ve' hve' with ⟨ve, hve, hpar', hprobes', hop'⟩ | hn
      · exact Or.inl ⟨ve, hve, hpar'.trans hpar, hprobes'.trans hprobes, hop'.trans hop⟩
      · exact Or.inr hn
    · exact Or.inr fun hh => hn (hh.mono h.allocated_le)

theorem Abides.houses (h : g.Abides g') : g.Houses g' :=
  ⟨h.allocated_le, fun v ve' hve' _ => h.values v ve' hve'⟩

theorem Houses.trans (h : g.Houses g') (h' : g'.Houses g'') : g.Houses g'' where
  allocated_le := Nat.le_trans h.allocated_le h'.allocated_le
  values v ve'' hve'' hp := by
    rcases h'.values v ve'' hve'' hp with ⟨ve', hve', hpar, hprobes, hop⟩ | hn
    · rcases h.values v ve' hve' (hpar ▸ hp) with ⟨ve, hve, hpar', hprobes', hop'⟩ | hn
      · exact Or.inl ⟨ve, hve, hpar'.trans hpar, hprobes'.trans hprobes, hop'.trans hop⟩
      · exact Or.inr hn
    · exact Or.inr fun hh => hn (hh.mono h.allocated_le)

/-! ## Elementary changes -/

/-- A change that makes no value and leaves what matters of values alone. -/
theorem Abides.of_values (ha : g.allocated ≤ g'.allocated)
    (hv : ∀ v ve', g'.values.get? v = some ve' → ∃ ve, g.values.get? v = some ve ∧
      ve.parent = ve'.parent ∧ ve.probes = ve'.probes ∧ ve.opcode = ve'.opcode) :
    g.Abides g' :=
  ⟨ha, fun v ve' hve' => Or.inl (hv v ve' hve')⟩

/-- A change that touches no values. -/
theorem Abides.of_eq (ha : g.allocated ≤ g'.allocated) (hv : g'.values = g.values) :
    g.Abides g' :=
  .of_values ha fun _ ve' hve' => ⟨ve', hv ▸ hve', rfl, rfl, rfl⟩

theorem Abides.refl (g : Graph) : g.Abides g := .of_eq (Nat.le_refl _) rfl

theorem Houses.of_eq (ha : g.allocated ≤ g'.allocated) (hv : g'.values = g.values) :
    g.Houses g' :=
  (Abides.of_eq ha hv).houses

theorem Houses.refl (g : Graph) : g.Houses g := (Abides.refl g).houses

theorem abides_modifyValue (g : Graph) (v : ValueRef) {f : ValueEntry → ValueEntry}
    (hf : ∀ e, (f e).parent = e.parent ∧ (f e).probes = e.probes ∧ (f e).opcode = e.opcode) :
    g.Abides { g with values := g.values.modify v f } := by
  refine .of_values (Nat.le_refl _) fun v' ve' hve' => ?_
  rw [Table.get?_modify] at hve'
  split at hve'
  · next heq =>
    subst heq
    obtain ⟨ve, hve, rfl⟩ := Option.map_eq_some_iff.mp hve'
    obtain ⟨hpar, hprobes, hop⟩ := hf ve
    exact ⟨ve, hve, hpar.symm, hprobes.symm, hop.symm⟩
  · exact ⟨ve', hve', rfl, rfl, rfl⟩

/-- A value outside all blocks is put at any address. -/
theorem houses_insertValue (g : Graph) (v : ValueRef) {ve : ValueEntry} (hp : ve.parent = .null) :
    g.Houses { g with values := g.values.insert v ve } := by
  refine ⟨Nat.le_refl _, fun v' ve' hve' hne => ?_⟩
  rcases Table.get?_of_get?_insert hve' with ⟨-, rfl⟩ | ⟨-, hve'⟩
  · exact absurd hp hne
  · exact Or.inl ⟨ve', hve', rfl, rfl, rfl⟩

/-- A new value takes an address that was not handed out before. -/
theorem abides_newValue (g : Graph) (ve : ValueEntry) : g.Abides (g.newValue ve).2 := by
  refine ⟨Nat.le_succ _, fun v' ve' hve' => ?_⟩
  rcases Table.get?_of_get?_insert hve' with ⟨rfl, -⟩ | ⟨-, hve'⟩
  · exact Or.inr (not_handed_alloc g)
  · exact Or.inl ⟨ve', hve', rfl, rfl, rfl⟩

/-! ## Changes past the bindings -/

theorem abides_intType (g : Graph) (cx : ContextRef) (width : Nat) :
    g.Abides (g.intType cx width).2 := by
  unfold intType
  split
  · exact .refl g
  · exact .of_eq (Nat.le_succ _) rfl

theorem abides_function (g : Graph) : g.Abides g.function.2 :=
  (g.abides_newValue _).trans (.of_eq (Nat.le_refl _) rfl)

/-- A dead address may be one of a value that stood in a block, but goes to one outside all blocks.
-/
theorem houses_reuse (g : Graph) (dead : ValueRef) (probes : List Probe) :
    g.Houses ((g.reuseAddress dead probes).getD g) := by
  unfold reuseAddress
  split
  · exact .refl g
  · exact g.houses_insertValue dead rfl

theorem abides_addUse (g : Graph) (used user : ValueRef) : g.Abides (g.addUse used user).2 := by
  have halloc : g.Abides g.alloc.2 := .of_eq (Nat.le_succ _) rfl
  have hm := halloc.trans (g.alloc.2.abides_modifyValue used
    (f := fun e => { e with uses := e.uses ++ [⟨g.alloc.1⟩] }) fun _ => ⟨rfl, rfl, rfl⟩)
  exact hm.trans (.of_eq (Nat.le_refl _) rfl)

theorem abides_newBlock (g : Graph) (f : ValueRef) (name : String) :
    g.Abides (g.newBlock f name).2 :=
  (g.abides_newValue _).trans (.of_eq (Nat.le_succ _) rfl)

theorem abides_instruction (g : Graph) (b : BlockRef) (probes : List Probe) (opcode : Opcode) :
    g.Abides (g.instruction b probes opcode).2 :=
  (g.abides_newValue _).trans (.of_eq (Nat.le_refl _) rfl)

theorem abides_branch (g : Graph) (b : BlockRef) (targets : List BlockRef) :
    g.Abides (g.branch b targets).2 := by
  have h1 := (g.abides_instruction b [.terminatorInst, .branchInst] .br).trans
    (abides_modifyValue _ (g.instruction b [.terminatorInst, .branchInst] .br).1
      (f := fun e => { e with successors := targets }) fun _ => ⟨rfl, rfl, rfl⟩)
  exact addEdges_kept (P := g.Abides) (fun g' used h => h.trans (g'.abides_addUse used _)) h1
    targets

/-! ## Calls -/

/-- The values that a deletion leaves are as before. -/
theorem abides_deleteBlock (g : Graph) (b : BlockRef) : g.Abides (g.deleteBlock b) := by
  cases hb : g.blocks.get? b with
  | none =>
    obtain ⟨layouts, hd⟩ := deleteBlock_of_get?_none hb
    rw [hd]
    exact .of_eq (Nat.le_refl _) rfl
  | some e =>
    refine .of_values (Nat.le_of_eq (allocated_deleteBlock hb).symm) fun v ve' hve' => ?_
    rw [get?_values_deleteBlock hb] at hve'
    split at hve'
    · contradiction
    · exact ⟨ve', hve', rfl, rfl, rfl⟩

theorem abides_moveBlock (g : Graph) (b position : BlockRef) (offset : Nat) :
    g.Abides (g.moveBlock b position offset).2 := by
  obtain ⟨layouts, hm⟩ := moveBlock_eq g b position offset
  rw [hm]
  exact .of_eq (Nat.le_refl _) rfl

/-- Names and flags of values may change by calls; what this is about does not. -/
theorem abides_perform (g : Graph) (c : Call) : g.Abides (g.perform c).2 := by
  cases c with
  | createContext => exact .of_eq (Nat.le_succ _) rfl
  | disposeContext cx => exact .of_eq (Nat.le_refl _) rfl
  | setValueName v name => exact g.abides_modifyValue v fun _ => ⟨rfl, rfl, rfl⟩
  | setVolatile v flag => exact g.abides_modifyValue v fun _ => ⟨rfl, rfl, rfl⟩
  | moveBlockBefore b position => exact g.abides_moveBlock b position 0
  | moveBlockAfter b position => exact g.abides_moveBlock b position 1
  | insertBlockBefore cx before name =>
    show g.Abides (g.insertBlockBefore before name).2
    unfold insertBlockBefore
    split
    · exact .refl g
    · next f index _ => exact (g.abides_newBlock f name).trans (.of_eq (Nat.le_refl _) rfl)
  | deleteBlock b => exact g.abides_deleteBlock b
  | _ => exact .refl g

theorem houses_perform (g : Graph) (c : Call) : g.Houses (g.perform c).2 :=
  (g.abides_perform c).houses

end Graph

theorem Change.abides (g : Graph) (x : Change) : g.Abides (x.apply g) := by
  cases x with
  | newContext | newType => exact .of_eq (Nat.le_succ _) rfl
  | intType cx width => exact g.abides_intType cx width
  | newValue entry => exact g.abides_newValue entry
  | function => exact g.abides_function
  | setType v ty => exact g.abides_modifyValue v fun _ => ⟨rfl, rfl, rfl⟩
  | setPredicate v n => exact g.abides_modifyValue v fun _ => ⟨rfl, rfl, rfl⟩
  | addUse used user => exact g.abides_addUse used user
  | appendBlock f name => exact (g.abides_newBlock f name).trans (.of_eq (Nat.le_refl _) rfl)
  | instruction b probes opcode => exact g.abides_instruction b probes opcode
  | branch b targets => exact g.abides_branch b targets

theorem Change.houses (g : Graph) (x : Change) : g.Houses (x.apply g) := (x.abides g).houses

end CanonIR.Memory
