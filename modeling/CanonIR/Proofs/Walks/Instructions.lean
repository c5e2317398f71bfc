import CanonIR.Proofs.Deletion.Underway
import CanonIR.Proofs.Walks.Users

/-!
Walks along instructions. The instructions of a block are gated one after the other, each as the one
behind the one before. What stands in a block is classified as the library has it now, so the walk
stops nowhere on the way; it yields all instructions in the order of the block, and its steps, its
ends, the blocks of the instructions and the terminator of the block agree with it
(`Shapes.Reachable.iterated`).
-/

namespace CanonIR

open Memory (Graph BlockEntry ValueEntry)

/-! ## Lists and options in step -/

theorem rel_getElem?_of_forall₂ {α β : Type} {R : α → β → Prop} {l : List α} {l' : List β}
    (h : List.Forall₂ R l l') (i : Nat) : Option.Rel R l[i]? l'[i]? := by
  induction h generalizing i with
  | nil => exact .none
  | cons hr _ ih =>
    cases i with
    | zero => exact .some hr
    | succ i => exact ih i

theorem rel_head?_of_forall₂ {α β : Type} {R : α → β → Prop} {l : List α} {l' : List β}
    (h : List.Forall₂ R l l') : Option.Rel R l.head? l'.head? := by
  rw [List.head?_eq_getElem?, List.head?_eq_getElem?]
  exact rel_getElem?_of_forall₂ h 0

theorem rel_getLast?_of_forall₂ {α β : Type} {R : α → β → Prop} {l : List α} {l' : List β}
    (h : List.Forall₂ R l l') : Option.Rel R l.getLast? l'.getLast? := by
  rw [List.getLast?_eq_getElem?, List.getLast?_eq_getElem?, h.length_eq]
  exact rel_getElem?_of_forall₂ h _

theorem rel_filter {α β : Type} {R : α → β → Prop} {p : α → Bool} {q : β → Bool} {x : Option α}
    {y : Option β} (h : Option.Rel R x y) (hpq : ∀ a b, R a b → p a = q b) :
    Option.Rel R (x.filter p) (y.filter q) := by
  cases h with
  | none => exact .none
  | @some a b hr =>
    rw [Option.filter_some, Option.filter_some, hpq a b hr]
    split
    · exact .some hr
    · exact .none

/-! ## Instructions in a graph -/

namespace Memory.Graph

/-- The library has the instructions of a block for instructions. -/
def Recognizes (g : Graph) (policy : UnknownValues) (e : BlockEntry) : Prop :=
  ∀ i ∈ e.instructions, ∃ k, g.valueKind i policy = .ok k ∧ k.isA (.ofClass .instruction) = true

instance (g : Graph) (policy : UnknownValues) (e : BlockEntry) :
    Decidable (g.Recognizes policy e) :=
  decidable_of_iff (∀ i ∈ e.instructions,
      (g.valueKind i policy).toOption.any (·.isA (.ofClass .instruction)) = true) (by
    refine forall₂_congr fun i _ => ?_
    cases g.valueKind i policy <;> simp [Except.toOption])

/-- Whether the library has a value for a terminator. -/
def terminates (g : Graph) (policy : UnknownValues) (i : ValueRef) : Bool :=
  match g.valueKind i policy with
  | .ok k => k.isA (.ofClass .terminatorInst)
  | .error _ => false

/-- What the library has for a terminator has the probe of terminators. -/
theorem probe_of_terminates {g : Graph} {policy : UnknownValues} {i : ValueRef}
    (h : g.terminates policy i = true) :
    g.ofValue i false (·.probes.contains .terminatorInst) = true := by
  unfold terminates at h
  split at h
  · next hk => exact mem_of_kindOf_isA hk h
  · exact nomatch h

end Memory.Graph

/-- A wrapper of an instruction, of the kind that the library gives. -/
structure ValueWrapper.ShowsInstruction (log : List Forgetting) (s : Recorders) (cx : Context)
    (i : ValueRef) (y : ValueWrapper) : Prop extends y.Shows log cx i where
  kind : (s.recorder cx.library).graph.valueKind i cx.options.unknownValues = .ok y.kind

theorem ValueWrapper.ShowsInstruction.terminates_eq {log : List Forgetting} {s : Recorders}
    {cx : Context} {i : ValueRef} {y : ValueWrapper} (h : y.ShowsInstruction log s cx i) :
    (s.recorder cx.library).graph.terminates cx.options.unknownValues i =
      y.isA (.ofClass .terminatorInst) := by
  rw [Graph.terminates, h.kind, ValueWrapper.isA]

/-- A wrapper of a living block, in libraries that have the instructions of the block for such. -/
structure BasicBlock.Opens (bb : BasicBlock) (s : Recorders) (b : BlockRef) (e : BlockEntry) :
    Prop where
  wellFormed : (s.recorder bb.value.context.library).graph.WellFormed
  block : (s.recorder bb.value.context.library).graph.blocks.get? b = some e
  value : e.value = bb.value.handle
  recognized : (s.recorder bb.value.context.library).graph.Recognizes
    bb.value.context.options.unknownValues e

section Rules

variable {log : List Forgetting} {s : Recorders} {l : List Reference}
variable {bb : BasicBlock} {b : BlockRef} {e : BlockEntry}

theorem BasicBlock.Opens.exists_view (h : bb.Opens s b e) {i : ValueRef}
    (hi : i ∈ e.instructions) {y : ValueWrapper}
    (hy : y.ShowsInstruction log s bb.value.context i) :
    ∃ t : Instruction, t.value = y ∧ y.downcast? .instruction = some t := by
  obtain ⟨k, hk, hisA⟩ := h.recognized i hi
  obtain rfl := Except.ok.inj (hk.symm.trans hy.kind)
  exact ⟨⟨y, hisA⟩, rfl, dif_pos hisA⟩

namespace Operation

open Carries (references)

/-- The gate of values, given an instruction of a block or null. -/
theorem leads_internInstruction (h : bb.Opens s b e)
    (hcx : ∃ r ∈ l, r.owner = bb.value.context) {o : Option ValueRef}
    (hmem : ∀ i ∈ o, i ∈ e.instructions) :
    Leads (Asking log s) l (internValue bb.value.context (o.getD .null)) l
      (Option.Rel (ValueWrapper.ShowsInstruction log s bb.value.context) o) := by
  cases o with
  | none =>
    refine (leads_internValue_null bb.value.context rfl).imp fun x hx => ?_
    obtain rfl : x = none := hx
    exact .none
  | some i =>
    obtain ⟨ve, hve, hpar⟩ := h.wellFormed.instruction b e h.block i (hmem i rfl)
    obtain ⟨k, hk, -⟩ := h.recognized i (hmem i rfl)
    have hne : ve.parent ≠ .null := fun heq =>
      (h.wellFormed.block_handed b e h.block).ne_zero
        (congrArg Handle.address (hpar.symm.trans heq))
    refine (leads_internValue hcx (h.wellFormed.value_handed i ve hve) hk).imp fun x hx => ?_
    obtain ⟨y, rfl, hy, hkind⟩ := hx
    exact .some { hy with kind := (hkind ve hve hne).symm ▸ hk }

theorem leads_firstInstruction (h : bb.Opens s b e) (hbb : .value bb.value ∈ l) :
    Leads (Asking log s) l (firstInstruction bb) l
      (Option.Rel (ValueWrapper.ShowsInstruction log s bb.value.context)
        e.instructions.head?) := by
  refine (leads_blockRef hbb h.block h.value).bind fun b' hb' => ?_
  obtain rfl : b' = b := hb'
  have hfirst : ((s.recorder bb.value.context.library).graph.perform (.firstInstruction b')).1 =
      .ok (e.instructions.head?.getD .null) := by
    rw [← List.headD_eq_head?_getD]
    exact congrArg Except.ok (Graph.ofBlock_of_get? h.block _ _)
  refine (leads_ask bb.value rfl hfirst).bind fun i hi => ?_
  obtain rfl : i = _ := hi
  exact leads_internInstruction h ⟨_, hbb, rfl⟩ fun i hi => List.mem_of_mem_head? hi

theorem leads_lastInstruction (h : bb.Opens s b e) (hbb : .value bb.value ∈ l) :
    Leads (Asking log s) l (lastInstruction bb) l
      (Option.Rel (ValueWrapper.ShowsInstruction log s bb.value.context)
        e.instructions.getLast?) := by
  refine (leads_blockRef hbb h.block h.value).bind fun b' hb' => ?_
  obtain rfl : b' = b := hb'
  have hlast : ((s.recorder bb.value.context.library).graph.perform (.lastInstruction b')).1 =
      .ok (e.instructions.getLast?.getD .null) :=
    congrArg Except.ok (Graph.ofBlock_of_get? h.block _ _)
  refine (leads_ask bb.value rfl hlast).bind fun i hi => ?_
  obtain rfl : i = _ := hi
  exact leads_internInstruction h ⟨_, hbb, rfl⟩ fun i hi => List.mem_of_getLast? hi

/-- From an instruction of a block to the one behind it. -/
theorem leads_nextInstruction (h : bb.Opens s b e) {t : Instruction} (ht : .value t.value ∈ l)
    {pre rest : List ValueRef} {i : ValueRef} (hi : e.instructions = pre ++ i :: rest)
    (hti : t.value.Shows log bb.value.context i) :
    Leads (Asking log s) l (nextInstruction t) l
      (Option.Rel (ValueWrapper.ShowsInstruction log s bb.value.context) rest.head?) := by
  have hcx := hti.context
  have hnext : ((s.recorder t.value.context.library).graph.perform
      (.nextInstruction t.value.handle)).1 = .ok (rest.head?.getD .null) := by
    rw [hcx, hti.handle, ← List.headD_eq_head?_getD]
    exact congrArg Except.ok (Graph.nextInstruction_of_mem h.wellFormed h.block hi)
  refine (leads_ask t.value rfl hnext).bind fun x hx => ?_
  obtain rfl : x = _ := hx
  rw [hcx]
  refine leads_internInstruction h ⟨_, ht, hcx⟩ fun j hj => ?_
  rw [hi]
  exact List.mem_append_right pre (List.mem_cons_of_mem i (List.mem_of_mem_head? hj))

/-- The walk from an instruction of a block on. -/
theorem leads_instructionsFrom (h : bb.Opens s b e) {pre rest : List ValueRef} {i : ValueRef}
    (hi : e.instructions = pre ++ i :: rest) {y : ValueWrapper}
    (hy : y.ShowsInstruction log s bb.value.context i) {limit : Nat}
    (hlimit : rest.length < limit) :
    Leads (Asking log s) (.value y :: l) (instructionsFrom limit y) l
      (List.Forall₂ (ValueWrapper.ShowsInstruction log s bb.value.context) (i :: rest)) := by
  have hI := Asking.tenable log s
  induction limit generalizing pre rest i y l with
  | zero => exact absurd hlimit (Nat.not_lt_zero _)
  | succ limit ih =>
    obtain ⟨t, rfl, hview⟩ := h.exists_view (hi ▸ List.mem_append_right pre List.mem_cons_self) hy
    unfold instructionsFrom
    refine Leads.orRelease ?_ _
    rw [hview]
    refine (leads_nextInstruction h List.mem_cons_self hi hy.toShows).bind fun x hx => ?_
    cases rest with
    | nil =>
      cases hx
      exact leads_pure hI (List.Perm.refl _) (.cons hy .nil)
    | cons j rest =>
      cases hx with | some hz =>
      rename_i z
      have hsplit : e.instructions = (pre ++ [i]) ++ j :: rest := hi.trans (List.append_cons pre i _)
      have hrest := ih (l := .value t.value :: l) hsplit hz (Nat.lt_of_succ_lt_succ hlimit)
      refine (hrest.cons hI rfl).imp ?_
      rintro zs ⟨zs, rfl, hzs⟩
      exact .cons hy hzs

/-- The walk yields the wrappers of all instructions of a block, in order. -/
theorem leads_instructions (h : bb.Opens s b e) (hbb : .value bb.value ∈ l) :
    Leads (Asking log s) l (instructions bb) l
      (List.Forall₂ (ValueWrapper.ShowsInstruction log s bb.value.context) e.instructions) := by
  refine (leads_walkLimit bb.value.context.library).bind fun limit hlimit => ?_
  have hlt : e.instructions.length ≤ limit := by
    have hle := Graph.length_instructions_le h.wellFormed h.block
    rw [hlimit, Recorder.walkLimit]
    omega
  refine (leads_firstInstruction h hbb).bind fun x hx => ?_
  cases hi : e.instructions with
  | nil =>
    rw [hi] at hx
    cases hx
    exact leads_pure (Asking.tenable log s) (List.Perm.refl _) .nil
  | cons i rest =>
    rw [hi] at hx hlt
    cases hx with | some hy =>
    have hsplit : e.instructions = [] ++ i :: rest := hi
    exact leads_instructionsFrom h hsplit hy hlt

/-- The terminator of a block is its last instruction, if the kind of that is one of terminators. -/
theorem leads_terminator (h : bb.Opens s b e) (hbb : .value bb.value ∈ l) :
    Leads (Asking log s) l (terminator bb) l (fun t =>
      Option.Rel (ValueWrapper.ShowsInstruction log s bb.value.context)
        (e.instructions.getLast?.filter ((s.recorder bb.value.context.library).graph.terminates
          bb.value.context.options.unknownValues))
        (t.map (·.value))) := by
  let g := (s.recorder bb.value.context.library).graph
  let ends := g.terminates bb.value.context.options.unknownValues
  -- The library goes by a probe of its own, which whatever is classified as a terminator passes.
  let probed (i : ValueRef) : Bool := g.ofValue i false (·.probes.contains .terminatorInst)
  have hand : (fun i => probed i && ends i) = ends := by
    funext i
    cases hi : ends i with
    | false => exact Bool.and_false _
    | true =>
      rw [Bool.and_true]
      exact Graph.probe_of_terminates hi
  refine (leads_blockRef hbb h.block h.value).bind fun b' hb' => ?_
  obtain rfl : b' = b := hb'
  have hend : (g.perform (.blockTerminator b')).1 =
      .ok ((e.instructions.getLast?.filter probed).getD .null) := by
    show Except.ok (g.blockTerminator b') = _
    rw [Graph.blockTerminator, Graph.ofBlock_of_get? h.block]
    cases e.instructions.getLast? with
    | none => rfl
    | some i =>
      rw [Option.filter_some]
      dsimp only [probed]
      split <;> rfl
  refine (leads_ask bb.value rfl hend).bind fun i hi => ?_
  obtain rfl : i = _ := hi
  refine (leads_internInstruction h ⟨_, hbb, rfl⟩ (o := e.instructions.getLast?.filter probed)
    fun i hi => List.mem_of_getLast? (Option.mem_filter_iff.mp hi).1).bind fun x hx => ?_
  have howner : ∀ y ∈ x, ∃ r ∈ l, r.owner = y.context := fun y hy => by
    obtain rfl : x = some y := hy
    generalize e.instructions.getLast?.filter probed = o at hx
    cases hx with | some hy =>
    exact ⟨_, hbb, hy.context.symm⟩
  refine (leads_downcast (Asking.tenable log s) .terminator howner).imp fun t ht => ?_
  show Option.Rel _ (e.instructions.getLast?.filter ends) _
  rw [ht, ← hand, ← Option.filter_filter]
  exact rel_filter hx fun _ _ hy => hy.terminates_eq

/-- The block of an instruction is the one that it stands in. -/
theorem leads_parentBlock (h : bb.Opens s b e) {t : Instruction} (ht : .value t.value ∈ l)
    {i : ValueRef} (hi : i ∈ e.instructions) (hti : t.value.Shows log bb.value.context i) :
    Leads (Asking log s) l (parentBlock t) l
      (fun x => ∃ q, x = some q ∧ q.value.Shows log bb.value.context e.value) := by
  obtain ⟨ve, hve, hpar⟩ := h.wellFormed.instruction b e h.block i hi
  have hcx := hti.context
  have hparent : ((s.recorder t.value.context.library).graph.perform
      (.instructionParent t.value.handle)).1 = .ok b := by
    rw [hcx, hti.handle, ← hpar]
    exact congrArg Except.ok (Graph.ofValue_of_get? hve _ _)
  refine (leads_ask t.value rfl hparent).bind fun x hx => ?_
  obtain rfl : x = b := hx
  rw [hcx]
  exact leads_internBlock ⟨_, ht, hcx⟩ h.block

end Operation

/-! ## Wrappers that are held -/

/-- A wrapper of a block is held, and so are the wrappers `xs` of its instructions. -/
structure Reading (log : List Forgetting) (s : Recorders) (l : List Reference) (bb : BasicBlock)
    (b : BlockRef) (e : BlockEntry) (xs : List ValueWrapper) (w : World Recorders) : Prop
    extends Asking log s l w where
  opens : bb.Opens s b e
  block : .value bb.value ∈ l
  shown : List.Forall₂ (ValueWrapper.ShowsInstruction log s bb.value.context) e.instructions xs
  elements : ∀ x ∈ xs, .value x ∈ l

namespace Reading

open Carries (references)

variable {xs : List ValueWrapper} {w : World Recorders}

theorem shows (h : Reading log s l bb b e xs w) :
    List.Forall₂ (ValueWrapper.Shows log bb.value.context) e.instructions xs :=
  h.shown.imp fun _ _ hy => hy.toShows

/-- Whatever instruction an operation finds, it comes with the wrapper that is held. -/
theorem finds (h : Reading log s l bb b e xs w) {α : Type} [Carries α] {op : Operation α}
    {f : α → Option ValueWrapper} {o : Option ValueRef}
    (hop : Operation.Leads (Asking log s) l op l fun x =>
      Option.Rel (ValueWrapper.ShowsInstruction log s bb.value.context) o (f x))
    (hf : ∀ x, ∀ y ∈ f x, .value y ∈ references x) {z : Option ValueWrapper}
    (hz : Option.Rel (ValueWrapper.ShowsInstruction log s bb.value.context) o z)
    (hm : ∀ y ∈ z, y ∈ xs) :
    ∃ x w', op.action.apply w = (.ok x, w') ∧ f x = z := by
  obtain ⟨x, w', hrun, hx, hw'⟩ := hop w h.toAsking
  refine ⟨x, w', hrun, ?_⟩
  generalize hy : f x = y at hx
  cases hx with
  | none => cases hz with | none => rfl
  | some hx =>
    cases hz with | some hz =>
    rename_i y z
    congr 1
    exact hw'.eq_of_shows hx.toShows hz.toShows (List.mem_append_left _ (hf x _ hy))
      (List.mem_append_right _ (h.elements z (hm z rfl)))

theorem finds_value (h : Reading log s l bb b e xs w) {op : Operation (Option ValueWrapper)}
    {o : Option ValueRef}
    (hop : Operation.Leads (Asking log s) l op l
      (Option.Rel (ValueWrapper.ShowsInstruction log s bb.value.context) o))
    {z : Option ValueWrapper}
    (hz : Option.Rel (ValueWrapper.ShowsInstruction log s bb.value.context) o z)
    (hm : ∀ y ∈ z, y ∈ xs) : ∃ w', op.action.apply w = (.ok z, w') := by
  obtain ⟨x, w', hx, rfl⟩ := h.finds (f := id) hop (fun x y hy => by
    obtain rfl : x = some y := hy
    exact List.mem_cons_self) hz hm
  exact ⟨w', hx⟩

theorem first (h : Reading log s l bb b e xs w) :
    ∃ w', (Operation.firstInstruction bb).action.apply w = (.ok xs.head?, w') :=
  h.finds_value (Operation.leads_firstInstruction h.opens h.block) (rel_head?_of_forall₂ h.shown)
    fun _ hy => List.mem_of_mem_head? hy

theorem last (h : Reading log s l bb b e xs w) :
    ∃ w', (Operation.lastInstruction bb).action.apply w = (.ok xs.getLast?, w') :=
  h.finds_value (Operation.leads_lastInstruction h.opens h.block) (rel_getLast?_of_forall₂ h.shown)
    fun _ hy => List.mem_of_getLast? hy

/-- Each wrapper can be viewed as that of an instruction, which has its position in the block. -/
theorem exists_element (h : Reading log s l bb b e xs w) {j : Nat} {x : ValueWrapper}
    (hx : xs[j]? = some x) :
    ∃ (t : Instruction) (i : ValueRef), t.value = x ∧ e.instructions[j]? = some i ∧
      .value t.value ∈ l ∧ t.value.Shows log bb.value.context i := by
  have hrel := rel_getElem?_of_forall₂ h.shown j
  rw [hx] at hrel
  generalize hi : e.instructions[j]? = o at hrel
  cases hrel with | some hy =>
  rename_i i
  obtain ⟨t, rfl, -⟩ := h.opens.exists_view (List.mem_of_getElem? hi) hy
  exact ⟨t, i, rfl, rfl, h.elements _ (List.mem_of_getElem? hx), hy.toShows⟩

theorem next (h : Reading log s l bb b e xs w) {j : Nat} {i : ValueRef} {t : Instruction}
    (hi : e.instructions[j]? = some i) (ht : .value t.value ∈ l)
    (hti : t.value.Shows log bb.value.context i) :
    ∃ w', (Operation.nextInstruction t).action.apply w = (.ok xs[j + 1]?, w') := by
  have hsplit : e.instructions = e.instructions.take j ++ i :: e.instructions.drop (j + 1) := by
    obtain ⟨hlt, rfl⟩ := List.getElem?_eq_some_iff.mp hi
    rw [List.getElem_cons_drop, List.take_append_drop]
  have hnext := Operation.leads_nextInstruction h.opens ht hsplit hti
  rw [List.head?_drop] at hnext
  exact h.finds_value hnext (rel_getElem?_of_forall₂ h.shown _) fun _ hy => List.mem_of_getElem? hy

/-- The block of an instruction comes with its canonical wrapper, which is the one that is held
unless that has been forgotten. -/
theorem parent (h : Reading log s l bb b e xs w) {i : ValueRef} {t : Instruction}
    (hi : i ∈ e.instructions) (ht : .value t.value ∈ l)
    (hti : t.value.Shows log bb.value.context i) :
    ∃ q w', (Operation.parentBlock t).action.apply w = (.ok (some q), w') ∧
      w'.Presents log bb.value.context e.value q.value ∧
      (¬ (Reference.value bb.value).Forgotten log → q = bb) := by
  obtain ⟨_, w', hrun, ⟨q, rfl, hq⟩, hw'⟩ :=
    Operation.leads_parentBlock h.opens ht hi hti w h.toAsking
  have hqm : Reference.value q.value ∈ references (some q) ++ l := List.mem_cons_self
  refine ⟨q, w', hrun, hw'.presents hq hqm, fun hf => Viewed.eq_of_value ?_⟩
  exact hw'.eq_of_shows hq ⟨rfl, h.opens.value.symm, hf⟩ hqm (List.mem_append_right _ h.block)

theorem terminator (h : Reading log s l bb b e xs w) :
    ∃ t w', (Operation.terminator bb).action.apply w = (.ok t, w') ∧
      t.map (·.value) = xs.getLast?.filter (·.isA (.ofClass .terminatorInst)) := by
  refine h.finds (f := Option.map Viewed.value) (Operation.leads_terminator h.opens h.block)
    (fun t y hy => ?_) (rel_filter (rel_getLast?_of_forall₂ h.shown) fun _ _ hy => hy.terminates_eq)
    fun y hy => List.mem_of_getLast? (Option.mem_filter_iff.mp hy).1
  obtain ⟨t, rfl, rfl⟩ := Option.map_eq_some_iff.mp hy
  exact List.mem_cons_self

end Reading

end Rules

/-! ## Runs -/

namespace Shapes

/-- The instructions of a block, read through a wrapper of the block, are `xs`, and all that is said
about their order agrees. -/
structure Iterated (m : Machine Recorders) (bb : BasicBlock) (b : BlockRef) (e : BlockEntry)
    (xs : List ValueWrapper) (w' : World Recorders) : Prop where
  run : (Operation.instructions bb).action.apply m.world = (.ok xs, w')
  /-- They come with their canonical wrappers, in the order of the block, -/
  presents : List.Forall₂ (w'.Presents m.log bb.value.context) e.instructions xs
  /-- each once, -/
  once : (xs.map (·.id)).Nodup
  /-- and nothing else is held. -/
  held : w'.held.Perm (xs.map .value ++ m.world.held)
  first : ∃ w₁, (Operation.firstInstruction bb).action.apply w' = (.ok xs.head?, w₁)
  last : ∃ w₁, (Operation.lastInstruction bb).action.apply w' = (.ok xs.getLast?, w₁)
  /-- Each leads to the one behind it, and to the canonical wrapper of the block. That is the one
  they were read through; only while an operation under way is to destroy the block in its very
  next step may it be another. -/
  element : ∀ j x, xs[j]? = some x → ∃ t : Instruction, t.value = x ∧
    (∃ w₁, (Operation.nextInstruction t).action.apply w' = (.ok xs[j + 1]?, w₁)) ∧
    ∃ q w₁, (Operation.parentBlock t).action.apply w' = (.ok (some q), w₁) ∧
      w₁.Presents m.log bb.value.context e.value q.value ∧
      (¬ m.Deleting bb.value.context.library b → q = bb)
  /-- The last one is the terminator, if it is of such a kind. -/
  terminator : ∃ t w₁, (Operation.terminator bb).action.apply w' = (.ok t, w₁) ∧
    t.map (·.value) = xs.getLast?.filter (·.isA (.ofClass .terminatorInst))

/-- In every state, the walk along the instructions of a living block yields exactly these, and all
queries about their order agree with it. -/
theorem Reachable.iterated {u : Shapes} (h : Reachable u) {bb : BasicBlock} {b : BlockRef}
    {e : BlockEntry} (hbb : .value bb.value ∈ u.world.held)
    (hb : (u.world.graph bb.value.context.library).blocks.get? b = some e)
    (hv : e.value = bb.value.handle)
    (hk : (u.world.graph bb.value.context.library).Recognizes
      bb.value.context.options.unknownValues e) :
    ∃ xs w', Iterated u.machine bb b e xs w' := by
  have hready := h.ready
  have hg := hready.shaped.graph bb.value.context.library
  have ho : bb.Opens u.world.native b e := ⟨hg, hb, hv, hk⟩
  obtain ⟨xs, w', hrun, hxs, hw'⟩ := Operation.leads_instructions ho hbb u.world
    hready.asking
  rw [Carries.references_values] at hw'
  have hr : Reading u.machine.log u.world.native (xs.map .value ++ u.world.held) bb b e xs w' :=
    { hw' with
      opens := ho
      block := List.mem_append_right _ hbb
      shown := hxs
      elements := fun x hx => List.mem_append_left _ (List.mem_map_of_mem hx) }
  refine ⟨xs, w', hrun, ?_, ?_, hw'.held, hr.first, hr.last, fun j x hx => ?_, hr.terminator⟩
  · exact forall₂_of_mem hr.shows fun i y hy hs => hw'.presents hs (hr.elements y hy)
  · refine nodup_map_of_forall₂ hr.shows (hg.instructions_nodup b e hb) _ ?_
    exact fun i i' y hy y' hy' hs hs' =>
      (hw'.id_eq_iff hs hs' (hr.elements y hy) (hr.elements y' hy')).mp
  · obtain ⟨t, i, rfl, hi, ht, hti⟩ := hr.exists_element hx
    obtain ⟨q, w₁, hq, hpresents, hself⟩ := hr.parent (List.mem_of_getElem? hi) ht hti
    exact ⟨t, rfl, hr.next hi ht hti, q, w₁, hq, hpresents, fun hnot =>
      hself (h.unforgotten hbb ⟨e, hb, hv⟩ hnot)⟩

/-- A block with three instructions, the last of which is a branch. The address of a deleted block
has been used again, and the wrapper of an instruction has been given up. -/
def refilled : List MemoryMove :=
  let address (n : Nat) : Nat := Memory.Graph.baseAddress + n * Memory.Graph.stride
  let cx : Context := ⟨0, ⟨0⟩, ⟨address 6⟩, true, {}⟩
  let doomed : BasicBlock := ⟨⟨2, cx, ⟨address 2⟩, .ofClass .basicBlock⟩, by decide⟩
  let load : ValueWrapper := ⟨1, cx, ⟨address 7⟩, .ofClass .loadInst⟩
  [.build ⟨0⟩ .function, .build ⟨0⟩ (.appendBlock ⟨address 1⟩ "doomed"),
    .build ⟨0⟩ (.appendBlock ⟨address 1⟩ "kept")] ++
    MemoryMove.serve (.createContext ⟨0⟩ {}) ++
    [.build ⟨0⟩ (.instruction ⟨address 5⟩ [.unaryInstruction, .loadInst] .load),
      .build ⟨0⟩ (.instruction ⟨address 5⟩ [.storeInst] .store),
      .build ⟨0⟩ (.branch ⟨address 5⟩ [])] ++
    MemoryMove.serve (.internValue (.context cx) ⟨address 7⟩) ++
    MemoryMove.serve (.internBlock (.context cx) ⟨address 3⟩) ++
    [.ask (.delete doomed)] ++ List.replicate 7 (.advance 0) ++
    [.reuse ⟨0⟩ ⟨address 2⟩ [.argument], .release (.value load)] ++
    MemoryMove.serve (.internBlock (.context cx) ⟨address 5⟩)

theorem iterated_refilled :
    let address (n : Nat) : Nat := Memory.Graph.baseAddress + n * Memory.Graph.stride
    let cx : Context := ⟨0, ⟨0⟩, ⟨address 6⟩, true, {}⟩
    let kept : BasicBlock := ⟨⟨3, cx, ⟨address 4⟩, .ofClass .basicBlock⟩, by decide⟩
    let entry : BlockEntry := ⟨⟨address 4⟩, ⟨address 1⟩, [⟨address 7⟩, ⟨address 8⟩, ⟨address 9⟩]⟩
    let u := refilled.foldl next {}
    (∀ lib b, ¬ u.machine.Deleting lib b) ∧
      ∃ xs w', Iterated u.machine kept ⟨address 5⟩ entry xs w' :=
  ⟨Machine.not_deleting (List.eq_nil_of_length_eq_zero (by decide +kernel)),
    (Reachable.start.moves (by decide +kernel)).iterated (by decide +kernel) (by decide +kernel)
      rfl (by decide +kernel)⟩

end Shapes

end CanonIR
