import Mathlib.Logic.Function.Iterate
import CanonIR.Proofs.Memory.Placed
import CanonIR.Proofs.Memory.Recorder

/-!
Consistent graphs. An in-memory library is set up past the bindings and answers calls, with any
handles at all: null ones, dead ones, ones of other functions, and ones that were not handed out
yet. Whatever was done to it, its tables agree with each other, and its walks end (`Consistent`).
Blocks and instructions are placed (`Placed`), uses are listed where they belong (`Listed`), and the
integer types are told apart by their widths and contexts (`Typed`).
-/

namespace CanonIR

namespace Memory

namespace Graph

variable {g g' : Graph}

/-- A deletion leaves uses and types alone, and makes no value. -/
theorem deleteBlock_shrinks (g : Graph) (b : BlockRef) :
    ∃ layouts blocks values, g.deleteBlock b = { g with layouts, blocks, values } ∧
      ∀ v ve, values.get? v = some ve → g.values.get? v = some ve := by
  cases hb : g.blocks.get? b with
  | none =>
    obtain ⟨layouts, hd⟩ := deleteBlock_of_get?_none hb
    exact ⟨layouts, g.blocks, g.values, hd, fun _ _ hve => hve⟩
  | some e =>
    obtain ⟨layouts, hd⟩ := deleteBlock_eq hb
    refine ⟨layouts, _, _, hd, fun v ve hve => ?_⟩
    rw [Table.get?_foldl_erase] at hve
    split at hve
    · contradiction
    · exact hve

/-! ## Uses -/

/-- The uses in the list of a value are recorded as uses of that value, each once. -/
structure Listed (g : Graph) : Prop where
  use_handed : ∀ u ue, g.uses.get? u = some ue → g.Handed u.address
  nodup : ∀ v ve, g.values.get? v = some ve → ve.uses.Nodup
  used : ∀ v ve, g.values.get? v = some ve → ∀ u ∈ ve.uses,
    ∃ ue, g.uses.get? u = some ue ∧ ue.used = v

theorem listed_empty : Listed {} where
  use_handed _ _ h := nomatch h
  nodup _ _ h := nomatch h
  used _ _ h := nomatch h

/-- A change that records no use; a value that is new has none. -/
theorem Listed.of_values (h : g.Listed) (ha : g.allocated ≤ g'.allocated) (hu : g'.uses = g.uses)
    (hv : ∀ v ve', g'.values.get? v = some ve' →
      ve'.uses = [] ∨ ∃ ve, g.values.get? v = some ve ∧ ve'.uses = ve.uses) : g'.Listed where
  use_handed u ue hue := (h.use_handed u ue (hu ▸ hue)).mono ha
  nodup v ve' hve' := by
    rcases hv v ve' hve' with hn | ⟨ve, hve, heq⟩
    · rw [hn]
      exact List.nodup_nil
    · rw [heq]
      exact h.nodup v ve hve
  used v ve' hve' u hm := by
    rw [hu]
    rcases hv v ve' hve' with hn | ⟨ve, hve, heq⟩
    · rw [hn] at hm
      exact absurd hm List.not_mem_nil
    · exact h.used v ve hve u (heq ▸ hm)

/-- A change that touches neither values nor uses. -/
theorem Listed.of_eq (h : g.Listed) (ha : g.allocated ≤ g'.allocated) (hv : g'.values = g.values)
    (hu : g'.uses = g.uses) : g'.Listed :=
  h.of_values ha hu fun _ ve hve => Or.inr ⟨ve, hv ▸ hve, rfl⟩

/-- A value without uses is put at any address. -/
theorem Listed.insertValue (h : g.Listed) (v : ValueRef) {ve : ValueEntry} (hve : ve.uses = []) :
    Listed { g with values := g.values.insert v ve } := by
  refine h.of_values (Nat.le_refl _) rfl fun v' ve' hve' => ?_
  rcases Table.get?_of_get?_insert hve' with ⟨-, rfl⟩ | ⟨-, hve'⟩
  · exact Or.inl hve
  · exact Or.inr ⟨ve', hve', rfl⟩

/-- A change of a value that leaves its uses alone. -/
theorem Listed.modifyValue (h : g.Listed) (v : ValueRef) {f : ValueEntry → ValueEntry}
    (hf : ∀ e, (f e).uses = e.uses) : Listed { g with values := g.values.modify v f } := by
  refine h.of_values (Nat.le_refl _) rfl fun v' ve' hve' => ?_
  rw [Table.get?_modify] at hve'
  split at hve'
  · next heq =>
    subst heq
    obtain ⟨ve, hve, rfl⟩ := Option.map_eq_some_iff.mp hve'
    exact Or.inr ⟨ve, hve, hf ve⟩
  · exact Or.inr ⟨ve', hve', rfl⟩

theorem Listed.alloc (h : g.Listed) : g.alloc.2.Listed :=
  h.of_eq (Nat.le_succ _) rfl rfl

theorem Listed.newValue (h : g.Listed) {ve : ValueEntry} (hve : ve.uses = []) :
    (g.newValue ve).2.Listed :=
  h.alloc.insertValue _ hve

section AddUse

variable {used user : ValueRef}

theorem get?_uses_addUse (g : Graph) (used user : ValueRef) (u : UseRef) :
    (g.addUse used user).2.uses.get? u =
      if u = ⟨g.alloc.1⟩ then some ⟨used, user⟩ else g.uses.get? u :=
  Table.get?_insert _ _ _ _

/-- A value after a new use: the used value has it behind the uses it had. -/
theorem of_get?_values_addUse {v : ValueRef} {ve' : ValueEntry}
    (hve' : (g.addUse used user).2.values.get? v = some ve') :
    ∃ ve, g.values.get? v = some ve ∧ ve'.probes = ve.probes ∧ ve'.successors = ve.successors ∧
      ve'.uses = if v = used then ve.uses ++ [⟨g.alloc.1⟩] else ve.uses := by
  have hm : (g.values.modify used fun e => { e with uses := e.uses ++ [⟨g.alloc.1⟩] }).get? v =
      some ve' := hve'
  rw [Table.get?_modify] at hm
  split at hm
  · next heq =>
    obtain ⟨ve, hve, rfl⟩ := Option.map_eq_some_iff.mp hm
    exact ⟨ve, heq ▸ hve, rfl, rfl, (if_pos heq).symm⟩
  · next hne => exact ⟨ve', hm, rfl, rfl, (if_neg hne).symm⟩

/-- A new use is none of those that are listed. -/
theorem Listed.ne_newUse (h : g.Listed) {v : ValueRef} {ve : ValueEntry}
    (hve : g.values.get? v = some ve) {u : UseRef} (hu : u ∈ ve.uses) : u ≠ ⟨g.alloc.1⟩ := by
  obtain ⟨ue, hue, -⟩ := h.used v ve hve u hu
  rintro rfl
  exact not_handed_alloc g (h.use_handed _ ue hue)

theorem Listed.addUse (h : g.Listed) (used user : ValueRef) : (g.addUse used user).2.Listed := by
  refine ⟨fun u ue hue => ?_, fun v ve' hve' => ?_, fun v ve' hve' u hm => ?_⟩
  · rw [get?_uses_addUse] at hue
    split at hue
    · next heq => exact heq ▸ handed_alloc g
    · exact (h.use_handed u ue hue).mono (Nat.le_succ _)
  · obtain ⟨ve, hve, -, -, huses⟩ := of_get?_values_addUse hve'
    rw [huses]
    split
    · rw [← List.concat_eq_append]
      exact (h.nodup v ve hve).concat fun hm => h.ne_newUse hve hm rfl
    · exact h.nodup v ve hve
  · obtain ⟨ve, hve, -, -, huses⟩ := of_get?_values_addUse hve'
    have hold (hm : u ∈ ve.uses) :
        ∃ ue, (g.addUse used user).2.uses.get? u = some ue ∧ ue.used = v := by
      rw [get?_uses_addUse, if_neg (h.ne_newUse hve hm)]
      exact h.used v ve hve u hm
    rw [huses] at hm
    split at hm
    · next heq =>
      rw [List.mem_append, List.mem_singleton] at hm
      rcases hm with hm | rfl
      · exact hold hm
      · exact ⟨_, by rw [get?_uses_addUse, if_pos rfl], heq.symm⟩
    · exact hold hm

end AddUse

theorem Listed.branch (h : g.Listed) (b : BlockRef) (targets : List BlockRef) :
    (g.branch b targets).2.Listed := by
  have h1 : (g.instruction b [.terminatorInst, .branchInst] .br).2.Listed :=
    (h.newValue rfl).of_eq (Nat.le_refl _) rfl rfl
  have h2 := h1.modifyValue (g.instruction b [.terminatorInst, .branchInst] .br).1
    (f := fun e => { e with successors := targets }) fun _ => rfl
  exact addEdges_kept (fun _ used h => h.addUse used _) h2 targets

/-- A deletion takes values away, with their lists. -/
theorem Listed.deleteBlock (h : g.Listed) (b : BlockRef) : (g.deleteBlock b).Listed := by
  obtain ⟨layouts, blocks, values, hd, hv⟩ := deleteBlock_shrinks g b
  rw [hd]
  exact h.of_values (Nat.le_refl _) rfl fun v ve hve => Or.inr ⟨ve, hv v ve hve, rfl⟩

/-- Calls other than those that build or delete blocks leave uses and values' lists alone. -/
theorem Listed.perform (h : g.Listed) (c : Call) : (g.perform c).2.Listed := by
  have hmove (b position : BlockRef) (offset : Nat) : (g.moveBlock b position offset).2.Listed := by
    obtain ⟨layouts, hm⟩ := moveBlock_eq g b position offset
    rw [hm]
    exact h.of_eq (Nat.le_refl _) rfl rfl
  cases c with
  | createContext => exact h.alloc
  | disposeContext cx => exact h.of_eq (Nat.le_refl _) rfl rfl
  | setValueName v name => exact h.modifyValue v fun _ => rfl
  | setVolatile v flag => exact h.modifyValue v fun _ => rfl
  | moveBlockBefore b position => exact hmove b position 0
  | moveBlockAfter b position => exact hmove b position 1
  | deleteBlock b => exact h.deleteBlock b
  | insertBlockBefore cx before name =>
    show (g.insertBlockBefore before name).2.Listed
    unfold insertBlockBefore
    split
    · exact h
    · exact (h.newValue rfl).of_eq (Nat.le_succ _) rfl rfl
  | _ => exact h

/-! ## Integer types -/

/-- The integer types stand for their contexts and widths. -/
structure Typed (g : Graph) : Prop where
  type_handed : ∀ ty te, g.types.get? ty = some te → g.Handed ty.address
  width : ∀ cx width ty, g.intTypes.get? (cx, width) = some ty →
    g.types.get? ty = some ⟨TypeKind.integer.number, width⟩
  unique : ∀ k k' ty, g.intTypes.get? k = some ty → g.intTypes.get? k' = some ty → k = k'

theorem typed_empty : Typed {} where
  type_handed _ _ h := nomatch h
  width _ _ _ h := nomatch h
  unique _ _ _ h := nomatch h

/-- A change that touches no types. -/
theorem Typed.of_eq (h : g.Typed) (ha : g.allocated ≤ g'.allocated) (ht : g'.types = g.types)
    (hi : g'.intTypes = g.intTypes) : g'.Typed where
  type_handed ty te he := (h.type_handed ty te (ht ▸ he)).mono ha
  width cx width ty he := by
    rw [ht]
    exact h.width cx width ty (hi ▸ he)
  unique k k' ty he he' := h.unique k k' ty (hi ▸ he) (hi ▸ he')

/-- A new type is none of the integer types there are. -/
theorem Typed.ne_alloc (h : g.Typed) {cx : ContextRef} {width : Nat} {ty : TypeRef}
    (ht : g.intTypes.get? (cx, width) = some ty) : ty ≠ ⟨g.alloc.1⟩ := by
  intro heq
  subst heq
  exact not_handed_alloc g (h.type_handed _ _ (h.width cx width _ ht))

theorem Typed.newType (h : g.Typed) (te : TypeEntry) : (g.newType te).2.Typed where
  type_handed ty te' he := by
    rcases Table.get?_of_get?_insert he with ⟨rfl, -⟩ | ⟨-, he⟩
    · exact handed_alloc g
    · exact (h.type_handed ty te' he).mono (Nat.le_succ _)
  width cx width ty he := by
    have hne : ty ≠ ⟨g.alloc.1⟩ := h.ne_alloc he
    show (g.types.insert ⟨g.alloc.1⟩ te).get? ty = _
    rw [Table.get?_insert, if_neg hne]
    exact h.width cx width ty he
  unique := h.unique

/-- The integer type of a context and a width is made once. -/
theorem Typed.intType (h : g.Typed) (cx : ContextRef) (width : Nat) :
    (g.intType cx width).2.Typed := by
  unfold Graph.intType
  split
  · exact h
  · next hnone =>
    let te : TypeEntry := ⟨TypeKind.integer.number, width⟩
    have hn := h.newType te
    -- An integer type is the new one, of this context and width, or one of those there were.
    have hcase {k : ContextRef × Nat} {ty : TypeRef}
        (he : ((g.newType te).2.intTypes.insert (cx, width) (g.newType te).1).get? k = some ty) :
        (k = (cx, width) ∧ ty = ⟨g.alloc.1⟩) ∨ (ty ≠ ⟨g.alloc.1⟩ ∧ g.intTypes.get? k = some ty) := by
      rcases Table.get?_of_get?_insert he with ⟨hk, ht⟩ | ⟨-, he⟩
      · exact Or.inl ⟨hk, ht⟩
      · exact Or.inr ⟨h.ne_alloc he, he⟩
    refine { hn with width := fun cx' width' ty he => ?_, unique := fun k k' ty he he' => ?_ }
    · rcases hcase he with ⟨hk, rfl⟩ | ⟨-, he⟩
      · obtain ⟨-, rfl⟩ := Prod.mk.inj hk
        exact (Table.get?_insert _ _ _ _).trans (if_pos rfl)
      · exact hn.width cx' width' ty he
    · rcases hcase he with ⟨hk, ht⟩ | ⟨hne, he⟩ <;> rcases hcase he' with ⟨hk', ht'⟩ | ⟨hne', he'⟩
      · exact hk.trans hk'.symm
      · exact absurd ht hne'
      · exact absurd ht' hne
      · exact h.unique k k' ty he he'

theorem Typed.branch (h : g.Typed) (b : BlockRef) (targets : List BlockRef) :
    (g.branch b targets).2.Typed := by
  let i := g.instruction b [.terminatorInst, .branchInst] .br
  let g₁ := { i.2 with values := i.2.values.modify i.1 fun e => { e with successors := targets } }
  have h1 : g₁.Typed := h.of_eq (Nat.le_succ _) rfl rfl
  exact addEdges_kept (fun _ _ h => h.of_eq (Nat.le_succ _) rfl rfl) h1 targets

/-- Calls build no types. -/
theorem Typed.perform (h : g.Typed) (c : Call) : (g.perform c).2.Typed := by
  have hmove (b position : BlockRef) (offset : Nat) : (g.moveBlock b position offset).2.Typed := by
    obtain ⟨layouts, hm⟩ := moveBlock_eq g b position offset
    rw [hm]
    exact h.of_eq (Nat.le_refl _) rfl rfl
  cases c with
  | createContext => exact h.of_eq (Nat.le_succ _) rfl rfl
  | disposeContext | setValueName | setVolatile => exact h.of_eq (Nat.le_refl _) rfl rfl
  | moveBlockBefore b position => exact hmove b position 0
  | moveBlockAfter b position => exact hmove b position 1
  | insertBlockBefore cx before name =>
    show (g.insertBlockBefore before name).2.Typed
    unfold insertBlockBefore
    split
    · exact h
    · exact h.of_eq (Nat.le_add_right _ 2) rfl rfl
  | deleteBlock b =>
    obtain ⟨layouts, blocks, values, hd, -⟩ := deleteBlock_shrinks g b
    show (g.deleteBlock b).Typed
    rw [hd]
    exact h.of_eq (Nat.le_refl _) rfl rfl
  | _ => exact h

/-! ## Walks -/

/-- A walk along a list without repetitions takes one step for each element that is left. -/
theorem iterate_after_append {k : HandleKind} {next : Handle k → Handle k}
    {pre rest : List (Handle k)} {h : Handle k} (hl : (pre ++ h :: rest).Nodup)
    (hn : ∀ x ∈ h :: rest, next x = after (pre ++ h :: rest) x) :
    next^[rest.length + 1] h = .null := by
  induction rest generalizing pre h with
  | nil =>
    show next h = .null
    rw [hn h List.mem_cons_self, after_append_cons hl]
    rfl
  | cons x rest ih =>
    have hx : next h = x := by
      rw [hn h List.mem_cons_self, after_append_cons hl]
      rfl
    have happ : pre ++ [h] ++ x :: rest = pre ++ h :: x :: rest := List.append_assoc pre [h] _
    have hl' : (pre ++ [h] ++ x :: rest).Nodup := happ ▸ hl
    rw [List.length_cons, Function.iterate_succ_apply, hx]
    refine ih hl' fun y hy => ?_
    rw [happ]
    exact hn y (List.mem_cons_of_mem h hy)

/-- A walk along a list of objects of the graph ends. -/
theorem exists_iterate_eq_null {k : HandleKind} {next : Handle k → Handle k} {l : List (Handle k)}
    (hl : l.Nodup) (hh : ∀ x ∈ l, g.Handed x.address) (hn : ∀ x ∈ l, next x = after l x)
    {h : Handle k} (hm : h ∈ l) : ∃ n ≤ g.allocated + 1, next^[n] h = .null := by
  obtain ⟨pre, rest, rfl⟩ := List.append_of_mem hm
  have hlen := length_le_allocated hl hh
  rw [List.length_append, List.length_cons] at hlen
  refine ⟨rest.length + 1, by omega, iterate_after_append hl fun x hx => ?_⟩
  exact hn x (List.mem_append_right pre hx)

/-- Nothing comes behind what is not in the list. -/
theorem after_of_not_mem {k : HandleKind} {l : List (Handle k)} {h : Handle k} (hn : h ∉ l) :
    after l h = .null := by
  rw [after, List.idxOf?_eq_none_iff.mpr hn]
  rfl

/-- A walk that is at its end at once. -/
theorem exists_iterate_of_eq_null {k : HandleKind} {next : Handle k → Handle k} {h : Handle k}
    (hn : next h = .null) : ∃ n ≤ g.allocated + 1, next^[n] h = .null :=
  ⟨1, Nat.le_add_left 1 _, hn⟩

theorem nextUse_eq_after {u : UseRef} {ue : UseEntry} {ve : ValueEntry}
    (hu : g.uses.get? u = some ue) (hv : g.values.get? ue.used = some ve) :
    g.nextUse u = after ve.uses u := by
  rw [nextUse, hu]
  exact ofValue_of_get? hv _ _

/-- The library leads from a use of a value to the one behind it. -/
theorem Listed.nextUse_of_mem (h : g.Listed) {v : ValueRef} {ve : ValueEntry}
    (hv : g.values.get? v = some ve) {u : UseRef} (hm : u ∈ ve.uses) :
    g.nextUse u = after ve.uses u := by
  obtain ⟨ue, hu, rfl⟩ := h.used v ve hv u hm
  exact nextUse_eq_after hu hv

theorem Listed.handed_of_mem (h : g.Listed) {v : ValueRef} {ve : ValueEntry}
    (hv : g.values.get? v = some ve) {u : UseRef} (hm : u ∈ ve.uses) : g.Handed u.address := by
  obtain ⟨ue, hu, -⟩ := h.used v ve hv u hm
  exact h.use_handed u ue hu

theorem Listed.nextUse_ends (h : g.Listed) (u : UseRef) :
    ∃ n ≤ g.allocated + 1, g.nextUse^[n] u = .null := by
  cases hu : g.uses.get? u with
  | none => exact exists_iterate_of_eq_null (by rw [nextUse, hu])
  | some ue =>
    cases hv : g.values.get? ue.used with
    | none => exact exists_iterate_of_eq_null (by rw [nextUse, hu]; simp only [ofValue, hv]; rfl)
    | some ve =>
      by_cases hm : u ∈ ve.uses
      · exact exists_iterate_eq_null (h.nodup _ ve hv) (fun _ hx => h.handed_of_mem hv hx)
          (fun _ hx => h.nextUse_of_mem hv hx) hm
      · exact exists_iterate_of_eq_null ((nextUse_eq_after hu hv).trans (after_of_not_mem hm))

theorem Placed.nextInstruction_ends (h : g.Placed) (v : ValueRef) :
    ∃ n ≤ g.allocated + 1, g.nextInstruction^[n] v = .null := by
  cases hv : g.values.get? v with
  | none => exact exists_iterate_of_eq_null (by rw [nextInstruction, ofValue, hv]; rfl)
  | some ve =>
    cases hb : g.blocks.get? ve.parent with
    | none =>
      exact exists_iterate_of_eq_null
        (by rw [nextInstruction, ofValue_of_get? hv, ofBlock, hb]; rfl)
    | some e =>
      by_cases hm : v ∈ e.instructions
      · refine exists_iterate_eq_null (h.doomed_nodup _ e hb).tail (fun x hx => ?_)
          (fun x hx => ?_) hm
        · exact h.doomed_handed _ e hb x (List.mem_cons_of_mem _ hx)
        · obtain ⟨xe, hxe, hp⟩ := h.parent _ e hb x hx
          exact nextInstruction_eq_after hxe (hp ▸ hb)
      · exact exists_iterate_of_eq_null ((nextInstruction_eq_after hv hb).trans (after_of_not_mem hm))

/-- The library leads from a block in a layout to the one behind it. -/
theorem Placed.nextBlock_of_mem (h : g.Placed) {f : ValueRef} {b : BlockRef} (hm : b ∈ g.layout f) :
    g.nextBlock b = after (g.layout f) b := by
  obtain ⟨e, he, hf⟩ := h.layout_home f b hm
  cases hi : (g.layout f).idxOf? b with
  | none => exact absurd hm (List.idxOf?_eq_none_iff.mp hi)
  | some i =>
    have hp := blockPosition?_eq_some_iff.mpr ⟨e, he, hf, hi⟩
    rw [nextBlock, blockBeside, hp, after, hi]
    rfl

theorem Placed.nextBlock_ends (h : g.Placed) (b : BlockRef) :
    ∃ n ≤ g.allocated + 1, g.nextBlock^[n] b = .null := by
  cases hp : g.blockPosition? b with
  | none => exact exists_iterate_of_eq_null (by rw [nextBlock, blockBeside, hp]; rfl)
  | some p =>
    obtain ⟨f, i⟩ := p
    obtain ⟨-, -, -, hi⟩ := blockPosition?_eq_some_iff.mp hp
    have hm : b ∈ g.layout f := by
      obtain ⟨hlt, rfl, -⟩ := List.idxOf?_eq_some_iff.mp hi
      exact List.getElem_mem hlt
    refine exists_iterate_eq_null (h.layout_nodup f) (fun x hx => ?_) (fun x hx => ?_) hm
    · obtain ⟨xe, hxe, -⟩ := h.layout_home f x hx
      exact h.block_handed x xe hxe
    · exact h.nextBlock_of_mem hx

/-! ## All of it -/

/-- The tables of a graph agree with each other, and its walks end. -/
structure Consistent (g : Graph) : Prop where
  /-- The value shape of a living block lives. -/
  block_value : ∀ b e, g.blocks.get? b = some e → g.values.contains e.value = true
  block_unique : ∀ b e b' e', g.blocks.get? b = some e → g.blocks.get? b' = some e' →
    e.value = e'.value → b = b'
  /-- An instruction in a living block lives, and its parent is the block. -/
  instruction : ∀ b e, g.blocks.get? b = some e → ∀ i ∈ e.instructions,
    ∃ ve, g.values.get? i = some ve ∧ ve.parent = b
  /-- An instruction stands once in the lists of all blocks together. -/
  instructions_nodup : (g.blocks.values.flatMap (·.instructions)).Nodup
  layout_nodup : ∀ f, (g.layout f).Nodup
  /-- The blocks in a layout live, and the layout is that of their function. -/
  layout : ∀ f, ∀ b ∈ g.layout f, ∃ e, g.blocks.get? b = some e ∧ e.function = f
  /-- A use in the list of a living value is recorded as a use of that value. -/
  used : ∀ v ve, g.values.get? v = some ve → ∀ u ∈ ve.uses,
    ∃ ue, g.uses.get? u = some ue ∧ ue.used = v
  /-- A use stands once in the lists of all values together. -/
  uses_nodup : (g.values.values.flatMap (·.uses)).Nodup
  intType : ∀ cx width ty, g.intTypes.get? (cx, width) = some ty →
    g.types.get? ty = some ⟨TypeKind.integer.number, width⟩
  intType_unique : ∀ k k' ty, g.intTypes.get? k = some ty → g.intTypes.get? k' = some ty → k = k'
  nextUse_ends : ∀ u, ∃ n ≤ g.allocated + 1, g.nextUse^[n] u = .null
  nextInstruction_ends : ∀ v, ∃ n ≤ g.allocated + 1, g.nextInstruction^[n] v = .null
  nextBlock_ends : ∀ b, ∃ n ≤ g.allocated + 1, g.nextBlock^[n] b = .null

theorem Consistent.of (hp : g.Placed) (hl : g.Listed) (ht : g.Typed) : g.Consistent where
  block_value b e hb := Option.isSome_iff_exists.mpr (hp.block_value b e hb)
  block_unique b e b' e' hb hb' heq :=
    hp.home b e b' e' e.value hb hb' List.mem_cons_self (heq ▸ List.mem_cons_self)
  instruction := hp.parent
  instructions_nodup := by
    refine Table.nodup_flatMap_values (fun b e hb => (hp.doomed_nodup b e hb).tail) ?_
    intro b e b' e' i hb hb' hi hi'
    exact hp.home b e b' e' i hb hb' (List.mem_cons_of_mem _ hi) (List.mem_cons_of_mem _ hi')
  layout_nodup := hp.layout_nodup
  layout := hp.layout_home
  used := hl.used
  uses_nodup := by
    refine Table.nodup_flatMap_values hl.nodup ?_
    intro v ve v' ve' u hv hv' hu hu'
    obtain ⟨ue, hue, hused⟩ := hl.used v ve hv u hu
    obtain ⟨ue', hue', hused'⟩ := hl.used v' ve' hv' u hu'
    obtain rfl := Option.some.inj (hue.symm.trans hue')
    exact hused.symm.trans hused'
  intType := ht.width
  intType_unique := ht.unique
  nextUse_ends := hl.nextUse_ends
  nextInstruction_ends := hp.nextInstruction_ends
  nextBlock_ends := hp.nextBlock_ends

end Graph

/-! ## What is done to a library -/

/-- What sets a library up past the bindings. -/
inductive Setup where
  | intType (cx : ContextRef) (width : Nat)
  /-- A type with any kind number. -/
  | rawType (kind : Nat)
  | value (probes : List Probe)
  | constExpr (opcode : Nat)
  | function
  | appendBlock (f : ValueRef) (name : String)
  | instruction (b : BlockRef) (probes : List Probe) (opcode : Opcode)
  | branch (b : BlockRef) (targets : List BlockRef)
  /-- It is an error to use the address of a living value again; nothing happens then. -/
  | reuseAddress (dead : ValueRef) (probes : List Probe)
  | addUse (used user : ValueRef)
  | setType (v : ValueRef) (ty : TypeRef)
  | setPredicate (v : ValueRef) (n : Nat)

namespace Setup

def apply (g : Graph) : Setup → Graph
  | intType cx width => (g.intType cx width).2
  | rawType kind => (g.newType { kind }).2
  | value probes => (g.value probes).2
  | constExpr opcode => (g.constExpr opcode).2
  | function => g.function.2
  | appendBlock f name => (g.appendBlock f name).2
  | instruction b probes opcode => (g.instruction b probes opcode).2
  | branch b targets => (g.branch b targets).2
  | reuseAddress dead probes => (g.reuseAddress dead probes).getD g
  | addUse used user => (g.addUse used user).2
  | setType v ty => g.setType v ty
  | setPredicate v n => g.setPredicate v n

variable {g : Graph}

theorem placed (h : g.Placed) (x : Setup) : (x.apply g).Placed := by
  cases x with
  | intType cx width => exact h.intType cx width
  | rawType kind => exact h.of_eq (Nat.le_succ _) rfl rfl rfl
  | value | constExpr => exact h.newValue _
  | function => exact h.function
  | appendBlock f name => exact h.appendBlock f name
  | instruction b probes opcode => exact h.instruction b probes opcode
  | branch b targets => exact h.branch b targets
  | reuseAddress dead probes => exact h.reuse dead probes
  | addUse used user => exact h.addUse used user
  | setType v ty => exact h.modifyValue v fun _ => rfl
  | setPredicate v n => exact h.modifyValue v fun _ => rfl

theorem listed (h : g.Listed) (x : Setup) : (x.apply g).Listed := by
  cases x with
  | intType cx width =>
    show (g.intType cx width).2.Listed
    unfold Graph.intType
    split
    · exact h
    · exact h.of_eq (Nat.le_succ _) rfl rfl
  | rawType kind => exact h.of_eq (Nat.le_succ _) rfl rfl
  | value | constExpr => exact h.newValue rfl
  | function => exact (h.newValue rfl).of_eq (Nat.le_refl _) rfl rfl
  | appendBlock f name => exact (h.newValue rfl).of_eq (Nat.le_succ _) rfl rfl
  | instruction b probes opcode => exact (h.newValue rfl).of_eq (Nat.le_refl _) rfl rfl
  | branch b targets => exact h.branch b targets
  | reuseAddress dead probes =>
    show ((g.reuseAddress dead probes).getD g).Listed
    unfold Graph.reuseAddress
    split
    · exact h
    · exact h.insertValue dead rfl
  | addUse used user => exact h.addUse used user
  | setType v ty => exact h.modifyValue v fun _ => rfl
  | setPredicate v n => exact h.modifyValue v fun _ => rfl

theorem typed (h : g.Typed) (x : Setup) : (x.apply g).Typed := by
  cases x with
  | intType cx width => exact h.intType cx width
  | rawType kind => exact h.newType { kind }
  | value | constExpr | function | addUse | instruction => exact h.of_eq (Nat.le_succ _) rfl rfl
  | appendBlock f name => exact h.of_eq (Nat.le_add_right _ 2) rfl rfl
  | setType | setPredicate => exact h.of_eq (Nat.le_refl _) rfl rfl
  | branch b targets => exact h.branch b targets
  | reuseAddress dead probes =>
    show ((g.reuseAddress dead probes).getD g).Typed
    unfold Graph.reuseAddress
    split
    · exact h
    · exact h.of_eq (Nat.le_refl _) rfl rfl

end Setup

end Memory

namespace Recorder

/-- What is done to a library. -/
inductive Move where
  | setup (x : Memory.Setup)
  | call (c : Call)

/-- The library afterwards; a call that traps leaves what it had done. -/
def next (r : Recorder) : Move → Recorder
  | .setup x => { r with graph := x.apply r.graph }
  | .call c => (r.perform c).2

/-- A move keeps blocks placed, uses listed and integer types told apart. -/
theorem next_kept {r : Recorder} (hp : r.graph.Placed) (hl : r.graph.Listed) (ht : r.graph.Typed)
    (m : Move) : (r.next m).graph.Placed ∧ (r.next m).graph.Listed ∧ (r.next m).graph.Typed := by
  cases m with
  | setup x => exact ⟨x.placed hp, x.listed hl, x.typed ht⟩
  | call c =>
    rw [next, graph_perform]
    exact ⟨hp.perform c, hl.perform c, ht.perform c⟩

theorem moves_kept {r : Recorder} (hp : r.graph.Placed) (hl : r.graph.Listed) (ht : r.graph.Typed)
    (ms : List Move) : (ms.foldl next r).graph.Consistent := by
  induction ms generalizing r with
  | nil => exact .of hp hl ht
  | cons m ms ih =>
    obtain ⟨hp, hl, ht⟩ := next_kept hp hl ht m
    exact ih hp hl ht

/-- Whatever is done to an untouched library, its graph is consistent. -/
theorem consistent_moves (ms : List Move) : (ms.foldl next {}).graph.Consistent :=
  moves_kept Memory.Graph.placed_empty Memory.Graph.listed_empty Memory.Graph.typed_empty ms

end Recorder

end CanonIR
