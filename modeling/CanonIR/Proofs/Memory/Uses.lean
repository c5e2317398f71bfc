import CanonIR.Proofs.Memory.Change
import CanonIR.Proofs.Memory.Consistent
import CanonIR.Proofs.Memory.Kind

/-!
Uses and users. The uses of a value stand in its list in the order in which they were recorded, since
a new one is put behind the others and gets an address above theirs (`Dated`). Read off the list are
the users of the value, and the blocks that end with one of these.
-/

namespace CanonIR.Memory

namespace Graph

variable {g g' g'' : Graph}

/-! ## The order of uses -/

/-- Every use in the list of a value is recorded as one of it, and was recorded before those behind
it. -/
structure Dated (g : Graph) : Prop extends Listed g where
  ascending : ∀ v ve, g.values.get? v = some ve →
    ve.uses.Pairwise fun u u' => u.address < u'.address

/-- No use is recorded, and what becomes a value anew has none. -/
structure Spares (g g' : Graph) : Prop where
  allocated_le : g.allocated ≤ g'.allocated
  uses : g'.uses = g.uses
  values : ∀ v ve', g'.values.get? v = some ve' →
    ve'.uses = [] ∨ ∃ ve, g.values.get? v = some ve ∧ ve'.uses = ve.uses

theorem dated_empty : Dated {} where
  toListed := listed_empty
  ascending _ _ h := nomatch h

theorem Dated.of_spares (h : g.Dated) (hs : g.Spares g') : g'.Dated where
  toListed := h.toListed.of_values hs.allocated_le hs.uses hs.values
  ascending _ ve' hve' := by
    rcases hs.values _ ve' hve' with hn | ⟨ve, hve, heq⟩
    · rw [hn]
      exact List.Pairwise.nil
    · rw [heq]
      exact h.ascending _ ve hve

theorem Spares.of_eq (ha : g.allocated ≤ g'.allocated) (hv : g'.values = g.values)
    (hu : g'.uses = g.uses) : g.Spares g' :=
  ⟨ha, hu, fun _ ve hve => Or.inr ⟨ve, hv ▸ hve, rfl⟩⟩

theorem Spares.refl (g : Graph) : g.Spares g := .of_eq (Nat.le_refl _) rfl rfl

theorem Spares.trans (h : g.Spares g') (h' : g'.Spares g'') : g.Spares g'' where
  allocated_le := Nat.le_trans h.allocated_le h'.allocated_le
  uses := h'.uses.trans h.uses
  values v ve'' hve'' := by
    rcases h'.values v ve'' hve'' with hn | ⟨ve', hve', heq'⟩
    · exact Or.inl hn
    · rcases h.values v ve' hve' with hn | ⟨ve, hve, heq⟩
      · exact Or.inl (heq'.trans hn)
      · exact Or.inr ⟨ve, hve, heq'.trans heq⟩

theorem spares_insertValue (g : Graph) (v : ValueRef) {ve : ValueEntry} (hve : ve.uses = []) :
    g.Spares { g with values := g.values.insert v ve } := by
  refine ⟨Nat.le_refl _, rfl, fun v' ve' hve' => ?_⟩
  rcases Table.get?_of_get?_insert hve' with ⟨-, rfl⟩ | ⟨-, hve'⟩
  · exact Or.inl hve
  · exact Or.inr ⟨ve', hve', rfl⟩

theorem spares_modifyValue (g : Graph) (v : ValueRef) {f : ValueEntry → ValueEntry}
    (hf : ∀ e, (f e).uses = e.uses) : g.Spares { g with values := g.values.modify v f } := by
  refine ⟨Nat.le_refl _, rfl, fun v' ve' hve' => Or.inr ?_⟩
  rw [Table.get?_modify] at hve'
  split at hve'
  · next heq =>
    subst heq
    obtain ⟨ve, hve, rfl⟩ := Option.map_eq_some_iff.mp hve'
    exact ⟨ve, hve, hf ve⟩
  · exact ⟨ve', hve', rfl⟩

theorem spares_newValue (g : Graph) {ve : ValueEntry} (hve : ve.uses = []) :
    g.Spares (g.newValue ve).2 := by
  have halloc : g.Spares g.alloc.2 := .of_eq (Nat.le_succ _) rfl rfl
  exact halloc.trans (g.alloc.2.spares_insertValue ⟨g.alloc.1⟩ hve)

theorem spares_newBlock (g : Graph) (f : ValueRef) (name : String) :
    g.Spares (g.newBlock f name).2 :=
  (g.spares_newValue rfl).trans (.of_eq (Nat.le_succ _) rfl rfl)

theorem spares_instruction (g : Graph) (b : BlockRef) (probes : List Probe) (opcode : Opcode) :
    g.Spares (g.instruction b probes opcode).2 :=
  (g.spares_newValue rfl).trans (.of_eq (Nat.le_refl _) rfl rfl)

theorem spares_reuse (g : Graph) (dead : ValueRef) (probes : List Probe) :
    g.Spares ((g.reuseAddress dead probes).getD g) := by
  unfold reuseAddress
  split
  · exact .refl g
  · exact g.spares_insertValue dead rfl

theorem spares_moveBlock (g : Graph) (b position : BlockRef) (offset : Nat) :
    g.Spares (g.moveBlock b position offset).2 := by
  obtain ⟨layouts, hm⟩ := moveBlock_eq g b position offset
  rw [hm]
  exact .of_eq (Nat.le_refl _) rfl rfl

/-- Calls record no uses. -/
theorem spares_perform (g : Graph) (c : Call) : g.Spares (g.perform c).2 := by
  cases c with
  | createContext => exact .of_eq (Nat.le_succ _) rfl rfl
  | disposeContext cx => exact .of_eq (Nat.le_refl _) rfl rfl
  | setValueName v name => exact g.spares_modifyValue v fun _ => rfl
  | setVolatile v flag => exact g.spares_modifyValue v fun _ => rfl
  | moveBlockBefore b position => exact g.spares_moveBlock b position 0
  | moveBlockAfter b position => exact g.spares_moveBlock b position 1
  | insertBlockBefore cx before name =>
    show g.Spares (g.insertBlockBefore before name).2
    unfold insertBlockBefore
    split
    · exact .refl g
    · next f index _ => exact (g.spares_newBlock f name).trans (.of_eq (Nat.le_refl _) rfl rfl)
  | deleteBlock b =>
    obtain ⟨layouts, blocks, values, hd, hv⟩ := deleteBlock_shrinks g b
    show g.Spares (g.deleteBlock b)
    rw [hd]
    exact ⟨Nat.le_refl _, rfl, fun v ve hve => Or.inr ⟨ve, hv v ve hve, rfl⟩⟩
  | _ => exact .refl g

/-- Addresses are handed out in ascending order. -/
theorem Handed.lt_alloc {a : Nat} (h : g.Handed a) : a < g.alloc.1 := by
  obtain ⟨k, -, hk, rfl⟩ := h
  show baseAddress + k * stride < baseAddress + (g.allocated + 1) * stride
  unfold stride
  omega

/-- A new use has an address above all those handed out before. -/
theorem Dated.addUse (h : g.Dated) (used user : ValueRef) : (g.addUse used user).2.Dated where
  toListed := h.toListed.addUse used user
  ascending v ve' hve' := by
    obtain ⟨ve, hve, -, -, huses⟩ := of_get?_values_addUse hve'
    rw [huses]
    split
    · refine List.pairwise_append.mpr ⟨h.ascending v ve hve, List.pairwise_singleton _ _, ?_⟩
      intro u hu u' hu'
      obtain rfl := List.mem_singleton.mp hu'
      exact (h.handed_of_mem hve hu).lt_alloc
    · exact h.ascending v ve hve

theorem Dated.branch (h : g.Dated) (b : BlockRef) (targets : List BlockRef) :
    (g.branch b targets).2.Dated := by
  have h1 := (g.spares_instruction b [.terminatorInst, .branchInst] .br).trans
    (spares_modifyValue _ (g.instruction b [.terminatorInst, .branchInst] .br).1
      (f := fun e => { e with successors := targets }) fun _ => rfl)
  exact addEdges_kept (fun _ used h => h.addUse used _) (h.of_spares h1) targets

/-! ## Users -/

/-- The recorded user of a use, unless it is null. -/
def user? (g : Graph) (u : UseRef) : Option ValueRef :=
  ((g.uses.get? u).map (·.user)).filter fun x => !x.isNull

/-- The living block that a value stands in. -/
def home? (g : Graph) (x : ValueRef) : Option BlockRef :=
  some (g.ofValue x .null (·.parent)) |>.filter g.blocks.contains

/-- The living block that a value ends, going by what its library says of it. -/
def ended? (g : Graph) (policy : UnknownValues) (x : ValueRef) : Option BlockRef :=
  match g.valueKind x policy with
  | .ok k => if k.isA (.ofClass .terminatorInst) then g.home? x else none
  | .error _ => none

/-- The blocks that are ended by users in a list of uses, each where it comes up first. -/
def endedBy (g : Graph) (policy : UnknownValues) (us : List UseRef) : List BlockRef :=
  ((us.filterMap g.user?).filterMap (g.ended? policy)).eraseDups

theorem nodup_eraseDups {α : Type} [DecidableEq α] (l : List α) : l.eraseDups.Nodup := by
  match l with
  | [] => exact List.nodup_nil
  | a :: l =>
    rw [List.eraseDups_cons, List.nodup_cons, List.mem_eraseDups]
    exact ⟨fun hm => by simp at hm, nodup_eraseDups (l.filter fun b => !b == a)⟩
termination_by l.length
decreasing_by exact Nat.lt_succ_of_le (List.length_filter_le _ l)

/-- The user of a use lives, unless it is null, and its kind can be found. -/
def Known (g : Graph) (policy : UnknownValues) (u : UseRef) : Prop :=
  ∀ x, g.user? u = some x → g.values.contains x = true ∧ ∃ k, g.valueKind x policy = .ok k

instance (g : Graph) (policy : UnknownValues) (u : UseRef) : Decidable (g.Known policy u) :=
  decidable_of_iff
    ((g.user? u).all fun x => g.values.contains x && (g.valueKind x policy).isOk) (by
      unfold Known
      cases g.user? u with
      | none => simp
      | some x => cases hk : g.valueKind x policy <;> simp [Except.isOk, Except.toBool, hk])

/-- The user of a use can pass the gate, unless it is null, though it may be gone: its address was
handed out, and its kind can be found. -/
def Passes (g : Graph) (policy : UnknownValues) (u : UseRef) : Prop :=
  ∀ x, g.user? u = some x → g.Handed x.address ∧ ∃ k, g.valueKind x policy = .ok k

theorem Known.passes (h : g.WellFormed) {policy : UnknownValues} {u : UseRef}
    (hk : g.Known policy u) : g.Passes policy u := by
  intro x hx
  obtain ⟨hlive, hkind⟩ := hk x hx
  obtain ⟨ve, hve⟩ := contains_iff.mp hlive
  exact ⟨h.value_handed x ve hve, hkind⟩

/-- What is met at a use on the way along the list of a value. -/
theorem Listed.use_of_split (h : g.Listed) {v : ValueRef} {ve : ValueEntry}
    (hve : g.values.get? v = some ve) {pre rest : List UseRef} {u : UseRef}
    (huses : ve.uses = pre ++ u :: rest) :
    u.isNull = false ∧ g.nextUse u = rest.headD .null ∧ ∃ ue, g.uses.get? u = some ue := by
  have hu : u ∈ ve.uses := huses ▸ List.mem_append_right pre List.mem_cons_self
  obtain ⟨ue, hue, -⟩ := h.used v ve hve u hu
  refine ⟨Handle.isNull_eq_false_iff.mpr (h.handed_of_mem hve hu).ne_zero, ?_, ue, hue⟩
  rw [h.nextUse_of_mem hve hu, huses]
  exact after_append_cons (huses ▸ h.nodup v ve hve)

theorem user?_of_get? {u : UseRef} {ue : UseEntry} (hu : g.uses.get? u = some ue) :
    g.user? u = if ue.user.isNull then none else some ue.user := by
  rw [user?, hu]
  cases hn : ue.user.isNull <;> simp [hn]

/-- What stands in a living block lives itself. -/
theorem exists_of_home? (h : g.WellFormed) {x : ValueRef} {b : BlockRef}
    (hx : g.home? x = some b) :
    ∃ ve, g.values.get? x = some ve ∧ ve.parent = b ∧ b ≠ .null := by
  obtain ⟨hparent, hlive⟩ := Option.filter_eq_some_iff.mp hx
  obtain ⟨e, he⟩ := contains_iff.mp hlive
  have hne : b ≠ .null := fun heq => (h.block_handed b e he).ne_zero (congrArg Handle.address heq)
  cases hve : g.values.get? x with
  | none =>
    rw [ofValue, hve] at hparent
    exact absurd (Option.some.inj hparent).symm hne
  | some ve =>
    rw [ofValue_of_get? hve] at hparent
    exact ⟨ve, rfl, Option.some.inj hparent, hne⟩

end Graph

/-- A change keeps the uses in order, if the values that it builds have none yet. -/
theorem Change.dated {g : Graph} (h : g.Dated) {x : Change}
    (hx : ∀ entry, x = .newValue entry → entry.uses = []) : (x.apply g).Dated := by
  cases x with
  | newContext | newType => exact h.of_spares (.of_eq (Nat.le_succ _) rfl rfl)
  | intType cx width =>
    refine h.of_spares ?_
    show g.Spares (g.intType cx width).2
    unfold Graph.intType
    split
    · exact .refl g
    · exact .of_eq (Nat.le_succ _) rfl rfl
  | newValue entry => exact h.of_spares (g.spares_newValue (hx entry rfl))
  | function =>
    exact h.of_spares ((g.spares_newValue rfl).trans (.of_eq (Nat.le_refl _) rfl rfl))
  | setType v ty => exact h.of_spares (g.spares_modifyValue v fun _ => rfl)
  | setPredicate v n => exact h.of_spares (g.spares_modifyValue v fun _ => rfl)
  | addUse used user => exact h.addUse used user
  | appendBlock f name =>
    exact h.of_spares ((g.spares_newBlock f name).trans (.of_eq (Nat.le_refl _) rfl rfl))
  | instruction b probes opcode => exact h.of_spares (g.spares_instruction b probes opcode)
  | branch b targets => exact h.branch b targets

end CanonIR.Memory
