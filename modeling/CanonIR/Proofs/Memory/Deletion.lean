import CanonIR.Proofs.Memory.WellFormed

/-!
Deleting a block. A walk from the first instruction of a block meets all its instructions in order,
and their number is below the bound of walks; the deletion takes the block, its value shape and
these instructions out of the graph, and leaves the rest.
-/

namespace CanonIR

theorem Table.get?_foldl_erase {κ α : Type} [DecidableEq κ] (l : List κ) (t : Table κ α) (k : κ) :
    (l.foldl Table.erase t).get? k = if k ∈ l then none else t.get? k := by
  induction l generalizing t with
  | nil => rfl
  | cons j l ih =>
    rw [List.foldl_cons, ih, Table.get?_erase]
    by_cases hk : k ∈ l
    · rw [if_pos hk, if_pos (List.mem_cons_of_mem j hk)]
    · rw [if_neg hk]
      by_cases hj : k = j
      · rw [if_pos hj, if_pos (hj ▸ List.mem_cons_self)]
      · rw [if_neg hj, if_neg (by simp [hj, hk])]

/-- The values that are destroyed with a block. -/
def Memory.BlockEntry.doomed (e : Memory.BlockEntry) : List ValueRef := e.value :: e.instructions

namespace Memory.Graph

variable {g : Graph} {b : BlockRef} {e : BlockEntry}

/-! ## The walk -/

theorem idxOf?_append_cons {k : HandleKind} {pre rest : List (Handle k)} {h : Handle k}
    (hl : (pre ++ h :: rest).Nodup) : (pre ++ h :: rest).idxOf? h = some pre.length := by
  have hpre : h ∉ pre := fun hm =>
    (List.nodup_append.mp hl).2.2 h hm h List.mem_cons_self rfl
  rw [List.idxOf?_eq_some_iff]
  refine ⟨by simp, by simp, fun j hj => ?_⟩
  rw [List.getElem_append_left hj]
  exact fun he => hpre (he ▸ List.getElem_mem hj)

/-- The element behind one in a list without repetitions. -/
theorem after_append_cons {k : HandleKind} {pre rest : List (Handle k)} {h : Handle k}
    (hl : (pre ++ h :: rest).Nodup) : after (pre ++ h :: rest) h = rest.headD .null := by
  unfold after
  rw [idxOf?_append_cons hl]
  have hget : (pre ++ h :: rest)[pre.length + 1]? = rest.head? := by
    rw [List.getElem?_append_right (Nat.le_succ _)]
    simp [List.head?_eq_getElem?]
  simp only [Option.bind_some, hget]
  cases rest <;> rfl

theorem nextInstruction_eq_after {v : ValueRef} {ve : ValueEntry}
    (hv : g.values.get? v = some ve) (hb : g.blocks.get? ve.parent = some e) :
    g.nextInstruction v = after e.instructions v := by
  rw [nextInstruction, ofValue_of_get? hv, ofBlock_of_get? hb]

/-- The library leads from an instruction of a block to the one behind it. -/
theorem nextInstruction_of_mem (h : g.WellFormed) (hb : g.blocks.get? b = some e)
    {pre rest : List ValueRef} {i : ValueRef} (hi : e.instructions = pre ++ i :: rest) :
    g.nextInstruction i = rest.headD .null := by
  obtain ⟨ve, hve, hpar⟩ := h.instruction b e hb i (by simp [hi])
  rw [nextInstruction_eq_after hve (hpar ▸ hb), hi]
  exact after_append_cons (hi ▸ h.instructions_nodup b e hb)

theorem isNull_of_mem (h : g.WellFormed) (hb : g.blocks.get? b = some e) {i : ValueRef}
    (hi : i ∈ e.instructions) : i.isNull = false := by
  obtain ⟨ve, hve, -⟩ := h.instruction b e hb i hi
  exact Handle.isNull_eq_false_iff.mpr (h.value_handed i ve hve).ne_zero

/-- There are at most as many objects of one kind as addresses were handed out. -/
theorem length_le_allocated {k : HandleKind} {l : List (Handle k)} (hl : l.Nodup)
    (hh : ∀ h ∈ l, g.Handed h.address) : l.length ≤ g.allocated := by
  have hmap : (l.map Handle.address).Nodup := by
    refine hl.map fun x y hxy => ?_
    exact congrArg Handle.mk hxy
  have hsub : l.map Handle.address ⊆
      (List.range g.allocated).map fun k => baseAddress + (k + 1) * stride := by
    intro a ha
    obtain ⟨i, hi, rfl⟩ := List.mem_map.mp ha
    exact handed_iff.mp (hh i hi)
  have hle := (List.subperm_of_subset hmap hsub).length_le
  rwa [List.length_map, List.length_map, List.length_range] at hle

/-- A block has at most as many instructions as addresses were handed out. -/
theorem length_instructions_le (h : g.WellFormed) (hb : g.blocks.get? b = some e) :
    e.instructions.length ≤ g.allocated + 1 := by
  refine Nat.le_succ_of_le (length_le_allocated (h.instructions_nodup b e hb) fun i hi => ?_)
  obtain ⟨ve, hve, -⟩ := h.instruction b e hb i hi
  exact h.value_handed i ve hve

/-! ## The deletion -/

theorem deleteBlock_eq (hb : g.blocks.get? b = some e) :
    ∃ layouts, g.deleteBlock b =
      { g with
        layouts
        blocks := g.blocks.erase b
        values := e.doomed.foldl Table.erase g.values } := by
  unfold deleteBlock
  cases hd : g.detachBlock? b with
  | none =>
    simp only [Option.map_none, Option.getD_none, hb]
    exact ⟨g.layouts, rfl⟩
  | some p =>
    obtain ⟨f, g'⟩ := p
    obtain ⟨layouts, rfl⟩ := detachBlock?_eq hd
    simp only [Option.map_some, Option.getD_some, hb]
    exact ⟨layouts, rfl⟩

theorem get?_values_deleteBlock (hb : g.blocks.get? b = some e) (v : ValueRef) :
    (g.deleteBlock b).values.get? v = if v ∈ e.doomed then none else g.values.get? v := by
  obtain ⟨layouts, hd⟩ := deleteBlock_eq hb
  rw [hd]
  exact Table.get?_foldl_erase e.doomed g.values v

theorem get?_blocks_deleteBlock (hb : g.blocks.get? b = some e) (b' : BlockRef) :
    (g.deleteBlock b).blocks.get? b' = if b' = b then none else g.blocks.get? b' := by
  obtain ⟨layouts, hd⟩ := deleteBlock_eq hb
  rw [hd]
  exact Table.get?_erase g.blocks b b'

/-- A block that is left is another one, and was there. -/
theorem of_get?_blocks_deleteBlock (hb : g.blocks.get? b = some e) {b' : BlockRef}
    {e' : BlockEntry} (he' : (g.deleteBlock b).blocks.get? b' = some e') :
    b' ≠ b ∧ g.blocks.get? b' = some e' := by
  rw [get?_blocks_deleteBlock hb] at he'
  split at he'
  · contradiction
  · next hne => exact ⟨hne, he'⟩

theorem allocated_deleteBlock (hb : g.blocks.get? b = some e) :
    (g.deleteBlock b).allocated = g.allocated := by
  obtain ⟨layouts, hd⟩ := deleteBlock_eq hb
  rw [hd]

/-- What is destroyed has lived. -/
theorem exists_of_mem_doomed (h : g.WellFormed) (hb : g.blocks.get? b = some e) {v : ValueRef}
    (hv : v ∈ e.doomed) : ∃ ve, g.values.get? v = some ve := by
  rcases List.mem_cons.mp hv with rfl | hv
  · obtain ⟨ve, hve, -⟩ := h.block_value b e hb
    exact ⟨ve, hve⟩
  · obtain ⟨ve, hve, -⟩ := h.instruction b e hb v hv
    exact ⟨ve, hve⟩

/-- What belongs to another block is not destroyed. -/
theorem not_mem_doomed (h : g.WellFormed) (hb : g.blocks.get? b = some e) {b' : BlockRef}
    {e' : BlockEntry} (hb' : g.blocks.get? b' = some e') (hne : b' ≠ b) :
    ∀ v ∈ e'.doomed, v ∉ e.doomed := by
  have hnull {b : BlockRef} {e : BlockEntry} (hb : g.blocks.get? b = some e) : b ≠ .null := by
    intro heq
    subst heq
    exact (h.block_handed _ e hb).ne_zero rfl
  -- A value shape has no block above it, and an instruction has one, which tells them apart.
  obtain ⟨ve, hve, -, hpar⟩ := h.block_value b e hb
  obtain ⟨ve', hve', -, hpar'⟩ := h.block_value b' e' hb'
  intro v hv' hv
  rcases List.mem_cons.mp hv with rfl | hv <;> rcases List.mem_cons.mp hv' with hv' | hv'
  · exact hne (h.block_unique b' e' b e hb' hb hv'.symm)
  · obtain ⟨xe, hxe, hx⟩ := h.instruction b' e' hb' _ hv'
    obtain rfl := Option.some.inj (hve.symm.trans hxe)
    exact hnull hb' (hx.symm.trans hpar)
  · subst hv'
    obtain ⟨xe, hxe, hx⟩ := h.instruction b e hb _ hv
    obtain rfl := Option.some.inj (hve'.symm.trans hxe)
    exact hnull hb (hx.symm.trans hpar')
  · obtain ⟨xe, hxe, hx⟩ := h.instruction b e hb _ hv
    obtain ⟨xe', hxe', hx'⟩ := h.instruction b' e' hb' _ hv'
    obtain rfl := Option.some.inj (hxe.symm.trans hxe')
    exact hne (hx'.symm.trans hx)

/-- A deletion keeps the graph well formed. -/
theorem wellFormed_deleteBlock (h : g.WellFormed) (hb : g.blocks.get? b = some e) :
    (g.deleteBlock b).WellFormed := by
  have hblock {b' : BlockRef} {e' : BlockEntry} :
      (g.deleteBlock b).blocks.get? b' = some e' → b' ≠ b ∧ g.blocks.get? b' = some e' :=
    of_get?_blocks_deleteBlock hb
  have hvalue {b' : BlockRef} {e' : BlockEntry} (hne : b' ≠ b) (he' : g.blocks.get? b' = some e')
      {v : ValueRef} (hv : v ∈ e'.doomed) :
      (g.deleteBlock b).values.get? v = g.values.get? v := by
    rw [get?_values_deleteBlock hb, if_neg (not_mem_doomed h hb he' hne v hv)]
  have halloc := allocated_deleteBlock hb
  have htypes : (g.deleteBlock b).types = g.types := by
    obtain ⟨layouts, hd⟩ := deleteBlock_eq hb
    rw [hd]
  refine ⟨?_, ?_, ?_, ?_, ?_, ?_, ?_⟩
  · rw [htypes]
    exact fun ty te he => (h.type_handed ty te he).mono (Nat.le_of_eq halloc.symm)
  · intro v ve hv
    rw [get?_values_deleteBlock hb] at hv
    split at hv
    · contradiction
    · exact (h.value_handed v ve hv).mono (Nat.le_of_eq halloc.symm)
  · intro b' e' he'
    exact (h.block_handed b' e' (hblock he').2).mono (Nat.le_of_eq halloc.symm)
  · intro b' e' he'
    obtain ⟨hne, he'⟩ := hblock he'
    rw [hvalue hne he' List.mem_cons_self]
    exact h.block_value b' e' he'
  · intro b₁ e₁ b₂ e₂ h₁ h₂
    exact h.block_unique b₁ e₁ b₂ e₂ (hblock h₁).2 (hblock h₂).2
  · intro b' e' he'
    exact h.instructions_nodup b' e' (hblock he').2
  · intro b' e' he' i hi
    obtain ⟨hne, he'⟩ := hblock he'
    rw [hvalue hne he' (List.mem_cons_of_mem _ hi)]
    exact h.instruction b' e' he' i hi

end Memory.Graph

end CanonIR
