import CanonIR.Proofs.Flow.Quiet

/-!
Graphs in which a block gets one branch at most, which ends it, and only branches make edges. In
such a graph the branch that a block ends with says where it leads to (`Routed`), and the uses of
the value shape of a block say from where it is reached (`Fed`). Quiet changes keep both, and so do
new instructions, uses that make no edge, and branches.
-/

namespace CanonIR.Memory

/-- A branch that was made: the block that it ends, the blocks that it leads to, and the branch
itself. -/
structure Branch where
  block : BlockRef
  targets : List BlockRef
  term : ValueRef
  deriving DecidableEq

namespace Branch

/-- The probes that hold of a branch. -/
def probes : List Probe := [.user, .instruction, .terminatorInst, .branchInst]

/-- The block that a value ends, if it is one of the branches. -/
def home? (brs : List Branch) (v : ValueRef) : Option BlockRef :=
  (brs.find? (·.term == v)).map (·.block)

/-- The blocks with edges to a block, one for each edge. -/
def edges (brs : List Branch) (b : BlockRef) : List BlockRef :=
  brs.flatMap fun br => List.replicate (br.targets.count b) br.block

theorem home?_eq_none_iff {brs : List Branch} {v : ValueRef} :
    home? brs v = none ↔ v ∉ brs.map (·.term) := by
  rw [home?, Option.map_eq_none_iff, List.find?_eq_none, List.mem_map]
  simp only [beq_iff_eq]
  exact ⟨fun h ⟨br, hbr, heq⟩ => h br hbr heq, fun h br hbr heq => h ⟨br, hbr, heq⟩⟩

theorem home?_concat (brs : List Branch) (br : Branch) (v : ValueRef) :
    home? (brs ++ [br]) v = (home? brs v).or (if br.term = v then some br.block else none) := by
  rw [home?, home?, List.find?_append, List.find?_singleton]
  cases brs.find? (·.term == v) with
  | some x => rfl
  | none =>
    by_cases heq : br.term = v
    · simp [heq]
    · simp [heq]

/-- One more target is one more edge. -/
theorem edges_concat (brs : List Branch) (b t : BlockRef) (ts : List BlockRef) (v : ValueRef)
    (b' : BlockRef) : edges (brs ++ [⟨b, ts ++ [t], v⟩]) b' =
      edges (brs ++ [⟨b, ts, v⟩]) b' ++ if b' = t then [b] else [] := by
  simp only [edges, List.flatMap_append, List.flatMap_singleton, List.append_assoc]
  refine congrArg _ ?_
  rw [List.count_append, List.replicate_add, List.count_singleton]
  by_cases heq : b' = t
  · simp [heq]
  · simp [heq, Ne.symm heq]

theorem edges_concat_nil (brs : List Branch) (b : BlockRef) (v : ValueRef) (b' : BlockRef) :
    edges (brs ++ [⟨b, [], v⟩]) b' = edges brs b' := by
  simp [edges]

end Branch

namespace Graph

/-- The blocks that the users of some uses end, as far as they are branches. -/
def origins (g : Graph) (brs : List Branch) (us : List UseRef) : List BlockRef :=
  us.filterMap fun u => (g.uses.get? u).bind fun ue => Branch.home? brs ue.user

/-- The branches of a graph are where they were put, and there are no other edges. -/
structure Routed (policy : UnknownValues) (g : Graph) (brs : List Branch) : Prop where
  wellFormed : g.WellFormed
  listed : g.Listed
  /-- A branch is the last instruction of its block. -/
  last : ∀ br ∈ brs, ∃ e, g.blocks.get? br.block = some e ∧ e.instructions.getLast? = some br.term
  term : ∀ br ∈ brs, ∃ ve, g.values.get? br.term = some ve ∧ ve.probes = Branch.probes ∧
    ve.successors = br.targets
  target : ∀ br ∈ brs, ∀ t ∈ br.targets, ∃ e, g.blocks.get? t = some e
  once : (brs.map (·.block)).Nodup
  /-- Instructions can be classified. -/
  instruction : ∀ b e, g.blocks.get? b = some e → ∀ i ∈ e.instructions,
    ∃ k, g.valueKind i policy = .ok k
  straight : ∀ v ve, g.values.get? v = some ve → v ∉ brs.map (·.term) → ve.successors = []
  /-- Users can be classified, and the terminators among them are branches. -/
  user : ∀ u ue, g.uses.get? u = some ue → g.values.contains ue.user = true ∧
    ∃ k, g.valueKind ue.user policy = .ok k ∧
      (k.isA (.ofClass .terminatorInst) = true → ue.user ∈ brs.map (·.term))

/-- The uses of the value shape of a block stand for the edges to the block. -/
def Fed (g : Graph) (brs : List Branch) : Prop :=
  ∀ b e ve, g.blocks.get? b = some e → g.values.get? e.value = some ve →
    g.origins brs ve.uses = Branch.edges brs b

variable {policy : UnknownValues} {g g' : Graph} {brs : List Branch}

theorem routed_empty : Routed policy {} [] where
  wellFormed := wellFormed_empty
  listed := listed_empty
  last _ h := nomatch h
  term _ h := nomatch h
  target _ h := nomatch h
  once := List.nodup_nil
  instruction _ _ h := nomatch h
  straight _ _ h := nomatch h
  user _ _ h := nomatch h

theorem fed_empty : Fed {} [] := fun _ _ _ h => nomatch h

theorem origins_cons {u : UseRef} {ue : UseEntry} (hu : g.uses.get? u = some ue)
    (us : List UseRef) :
    g.origins brs (u :: us) = (Branch.home? brs ue.user).toList ++ g.origins brs us := by
  rw [origins, List.filterMap_cons, hu, Option.bind_some]
  cases Branch.home? brs ue.user <;> rfl

namespace Routed

/-- A branch is an instruction of its block. -/
theorem parent (h : Routed policy g brs) {br : Branch} (hbr : br ∈ brs) :
    ∃ ve, g.values.get? br.term = some ve ∧ ve.parent = br.block := by
  obtain ⟨e, he, hl⟩ := h.last br hbr
  exact h.wellFormed.instruction _ e he _ (List.mem_of_getLast? hl)

theorem valueKind_term (h : Routed policy g brs) {br : Branch} (hbr : br ∈ brs) :
    g.valueKind br.term policy = .ok (.ofClass .branchInst) := by
  obtain ⟨ve, hve, hp, -⟩ := h.term br hbr
  simp only [valueKind, ofValue_of_get? hve, hp]
  rfl

/-- Of a block only one branch is in the plan. -/
theorem eq_of_block (h : Routed policy g brs) {br br' : Branch} (hbr : br ∈ brs) (hbr' : br' ∈ brs)
    (hb : br.block = br'.block) : br = br' :=
  List.inj_on_of_nodup_map h.once hbr hbr' hb

/-- An instruction can still be classified when the graph has evolved. -/
theorem instruction_of_evolves (h : Routed policy g brs) (he : g.Evolves g') {b : BlockRef}
    {e : BlockEntry} (hb : g.blocks.get? b = some e) {i : ValueRef} (hi : i ∈ e.instructions) :
    ∃ k, g'.valueKind i policy = .ok k := by
  obtain ⟨ve, hve, -⟩ := h.wellFormed.instruction b e hb i hi
  rw [(he.keeps.valueKind (contains_iff.mpr ⟨ve, hve⟩) policy).2]
  exact h.instruction b e hb i hi

/-- So can a user, and it is a branch if it was one. -/
theorem user_of_evolves (h : Routed policy g brs) (he : g.Evolves g') {u : UseRef} {ue : UseEntry}
    (hu : g.uses.get? u = some ue) : g'.values.contains ue.user = true ∧
      ∃ k, g'.valueKind ue.user policy = .ok k ∧
        (k.isA (.ofClass .terminatorInst) = true → ue.user ∈ brs.map (·.term)) := by
  obtain ⟨hc, hk⟩ := h.user u ue hu
  obtain ⟨hc', hk'⟩ := he.keeps.valueKind hc policy
  exact ⟨hc', hk' ▸ hk⟩

/-- A quiet change that keeps the objects. -/
theorem quiet (h : Routed policy g brs) (hq : g.Quiet g') (he : g.Evolves g') :
    Routed policy g' brs where
  wellFormed := he.wellFormed
  listed := by
    refine h.listed.of_values he.keeps.allocated_le hq.uses fun v ve' hve' => ?_
    cases hve : g.values.get? v with
    | none => exact Or.inl (hq.new_value v ve' hve' hve).2
    | some ve =>
      obtain ⟨x, hx, -, hu⟩ := hq.old_value v ve hve
      obtain rfl := Option.some.inj (hx.symm.trans hve')
      exact Or.inr ⟨ve, rfl, hu⟩
  last br hbr := by
    obtain ⟨e, he, hl⟩ := h.last br hbr
    exact ⟨e, hq.old_block _ e he, hl⟩
  term br hbr := by
    obtain ⟨ve, hve, hp, hs⟩ := h.term br hbr
    obtain ⟨ve', hve', hs', -⟩ := hq.old_value _ ve hve
    obtain ⟨x, hx, hp', -⟩ := he.keeps.values _ ve hve
    obtain rfl := Option.some.inj (hx.symm.trans hve')
    exact ⟨x, hx, hp'.trans hp, hs'.trans hs⟩
  target br hbr t ht := by
    obtain ⟨e, he⟩ := h.target br hbr t ht
    exact ⟨e, hq.old_block t e he⟩
  once := h.once
  instruction b e' he' i hi := by
    cases hb : g.blocks.get? b with
    | none =>
      rw [(hq.new_block b e' he' hb).2] at hi
      exact absurd hi List.not_mem_nil
    | some e =>
      obtain rfl := Option.some.inj ((hq.old_block b e hb).symm.trans he')
      exact h.instruction_of_evolves he hb hi
  straight v ve' hve' hn := by
    cases hve : g.values.get? v with
    | none => exact (hq.new_value v ve' hve' hve).1
    | some ve =>
      obtain ⟨x, hx, hs, -⟩ := hq.old_value v ve hve
      obtain rfl := Option.some.inj (hx.symm.trans hve')
      exact hs.trans (h.straight v ve hve hn)
  user _ _ hue := h.user_of_evolves he (hq.uses ▸ hue)

end Routed

theorem Fed.quiet (hf : Fed g brs) (h : Routed policy g brs) (hq : g.Quiet g') : Fed g' brs := by
  intro b e' ve' he' hve'
  have horigins : g'.origins brs ve'.uses = g.origins brs ve'.uses := by
    rw [origins, origins, hq.uses]
  rw [horigins]
  cases hb : g.blocks.get? b with
  | none =>
    -- Nothing leads to a block that is new, as targets live when a branch is made.
    obtain ⟨hv, -⟩ := hq.new_block b e' he' hb
    rw [(hq.new_value _ ve' hve' hv).2]
    symm
    refine List.flatMap_eq_nil_iff.mpr fun br hbr => ?_
    have hcount : br.targets.count b = 0 := List.count_eq_zero.mpr fun hm => by
      obtain ⟨e, he⟩ := h.target br hbr b hm
      rw [hb] at he
      exact nomatch he
    rw [hcount]
    rfl
  | some e =>
    obtain rfl := Option.some.inj ((hq.old_block b e hb).symm.trans he')
    obtain ⟨ve, hve, -⟩ := h.wellFormed.block_value b e hb
    obtain ⟨x, hx, -, hu⟩ := hq.old_value _ ve hve
    obtain rfl := Option.some.inj (hx.symm.trans hve')
    rw [hu]
    exact hf b e ve hb hve

/-! ## Instructions -/

/-- The graph with a value at the end of a block. -/
def putLast (g : Graph) (b : BlockRef) (v : ValueRef) : Graph :=
  { g with blocks := g.blocks.modify b fun e => { e with instructions := e.instructions ++ [v] } }

theorem get?_putLast_of_ne (g : Graph) {b b' : BlockRef} (v : ValueRef) (hb : b' ≠ b) :
    (g.putLast b v).blocks.get? b' = g.blocks.get? b' :=
  (Table.get?_modify _ _ _ _).trans (if_neg hb)

theorem get?_putLast_self {b : BlockRef} {e : BlockEntry} (v : ValueRef)
    (hb : g.blocks.get? b = some e) : (g.putLast b v).blocks.get? b =
      some { e with instructions := e.instructions ++ [v] } := by
  refine (Table.get?_modify _ _ _ _).trans ?_
  rw [if_pos rfl, hb]
  rfl

/-- Blocks stay where they are when an instruction is put into one. -/
theorem exists_get?_putLast {b b' : BlockRef} {e : BlockEntry} (v : ValueRef)
    (hb : g.blocks.get? b' = some e) : ∃ e', (g.putLast b v).blocks.get? b' = some e' := by
  by_cases heq : b' = b
  · subst heq
    exact ⟨_, get?_putLast_self v hb⟩
  · exact ⟨e, (g.get?_putLast_of_ne v heq).trans hb⟩

theorem Routed.putLast (h : Routed policy g brs) {b : BlockRef} {v : ValueRef}
    (hw : (g.putLast b v).WellFormed) (hb : b ∉ brs.map (·.block))
    (hk : ∃ k, g.valueKind v policy = .ok k) : Routed policy (g.putLast b v) brs where
  wellFormed := hw
  listed := h.listed.of_eq (Nat.le_refl _) rfl rfl
  last br hbr := by
    have hne : br.block ≠ b := fun heq => hb (heq ▸ List.mem_map_of_mem hbr)
    obtain ⟨e, he, hl⟩ := h.last br hbr
    exact ⟨e, (g.get?_putLast_of_ne v hne).trans he, hl⟩
  term := h.term
  target br hbr t ht := by
    obtain ⟨e, he⟩ := h.target br hbr t ht
    exact exists_get?_putLast v he
  once := h.once
  instruction b' e' he' i hi := by
    obtain ⟨e, he, -, heq | ⟨-, heq⟩⟩ := of_get?_modify_instructions he'
    · exact h.instruction b' e he i (heq ▸ hi)
    · rw [heq, List.mem_append, List.mem_singleton] at hi
      rcases hi with hi | rfl
      · exact h.instruction b' e he i hi
      · exact hk
  straight := h.straight
  user := h.user

theorem Fed.putLast (hf : Fed g brs) (b : BlockRef) (v : ValueRef) : Fed (g.putLast b v) brs := by
  intro b' e' ve he' hve
  obtain ⟨e, he, hv, -⟩ := of_get?_modify_instructions he'
  exact hf b' e ve he (hv ▸ hve)

/-- The entry of a new instruction. -/
def instructionEntry (b : BlockRef) (probes : List Probe) (opcode : Opcode) : ValueEntry :=
  { probes := .user :: .instruction :: probes, opcode := opcode.number, parent := b }

theorem Routed.instruction_kept (h : Routed policy g brs) (hf : Fed g brs) {b : BlockRef}
    {probes : List Probe} {opcode : Opcode} (hb : b ∉ brs.map (·.block))
    (hk : ∃ k, (g.instruction b probes opcode).2.valueKind (g.instruction b probes opcode).1
      policy = .ok k) :
    Routed policy (g.instruction b probes opcode).2 brs ∧
      Fed (g.instruction b probes opcode).2 brs := by
  have hq : g.Quiet (g.newValue (instructionEntry b probes opcode)).2 :=
    quiet_newValue h.wellFormed rfl rfl
  have h1 := h.quiet hq (evolves_newValue h.wellFormed _)
  have hw := (evolves_instruction h.wellFormed b probes opcode).wellFormed
  exact ⟨h1.putLast hw hb hk, (hf.quiet h hq).putLast b _⟩

/-! ## Uses -/

section AddUse

variable {used user : ValueRef}

theorem Routed.addUse (h : Routed policy g brs) (hu : g.values.contains user = true)
    (hk : ∃ k, g.valueKind user policy = .ok k ∧
      (k.isA (.ofClass .terminatorInst) = true → user ∈ brs.map (·.term))) :
    Routed policy (g.addUse used user).2 brs := by
  have he := evolves_addUse h.wellFormed used user
  refine ⟨he.wellFormed, h.listed.addUse used user, h.last, fun br hbr => ?_, h.target, h.once,
    fun _ _ hb _ hi => h.instruction_of_evolves he hb hi, fun v ve' hve' hn => ?_,
    fun u ue hue => ?_⟩
  · obtain ⟨ve, hve, hp, hs⟩ := h.term br hbr
    obtain ⟨ve', hve', -⟩ := he.keeps.values _ ve hve
    obtain ⟨x, hx, hp', hs', -⟩ := of_get?_values_addUse hve'
    obtain rfl := Option.some.inj (hx.symm.trans hve)
    exact ⟨ve', hve', hp'.trans hp, hs'.trans hs⟩
  · obtain ⟨ve, hve, -, hs, -⟩ := of_get?_values_addUse hve'
    exact hs.trans (h.straight v ve hve hn)
  · rw [get?_uses_addUse] at hue
    split at hue
    · obtain rfl := Option.some.inj hue
      obtain ⟨hu', hk'⟩ := he.keeps.valueKind hu policy
      exact ⟨hu', hk' ▸ hk⟩
    · exact h.user_of_evolves he hue

/-- What the uses of a value stand for, after a new use. -/
theorem origins_addUse (h : g.Listed) (brs : List Branch) {v : ValueRef} {ve : ValueEntry}
    (hve : g.values.get? v = some ve) :
    (g.addUse used user).2.origins brs
        (if v = used then ve.uses ++ [⟨g.alloc.1⟩] else ve.uses) =
      g.origins brs ve.uses ++ if v = used then (Branch.home? brs user).toList else [] := by
  have hold : (g.addUse used user).2.origins brs ve.uses = g.origins brs ve.uses := by
    refine List.filterMap_congr fun u hu => ?_
    rw [get?_uses_addUse, if_neg (h.ne_newUse hve hu)]
  split
  · have hentry : (g.addUse used user).2.uses.get? ⟨g.alloc.1⟩ = some ⟨used, user⟩ :=
      (get?_uses_addUse g used user _).trans (if_pos rfl)
    have hnew : (g.addUse used user).2.origins brs [⟨g.alloc.1⟩] =
        (Branch.home? brs user).toList := (origins_cons hentry []).trans (List.append_nil _)
    rw [← hnew, ← hold]
    exact List.filterMap_append
  · rw [List.append_nil]
    exact hold

/-- A user that is no branch makes no edge. -/
theorem Fed.addUse (hf : Fed g brs) (hl : g.Listed) (hu : Branch.home? brs user = none) :
    Fed (g.addUse used user).2 brs := by
  intro b e ve' he hve'
  obtain ⟨ve, hve, -, -, huses⟩ := of_get?_values_addUse hve'
  rw [huses, origins_addUse hl brs hve, hu]
  have hnone : (if e.value = used then (none : Option BlockRef).toList else []) = [] := by
    split <;> rfl
  rw [hnone, List.append_nil]
  exact hf b e ve he hve

/-- A branch that uses a block makes an edge to it. -/
theorem Fed.addEdge (hf : Fed g brs) (hw : g.WellFormed) (hl : g.Listed) {t b : BlockRef}
    {e : BlockEntry} (ht : g.blocks.get? t = some e) (hu : Branch.home? brs user = some b)
    {brs' : List Branch}
    (hhome : ∀ v, Branch.home? brs' v = Branch.home? brs v)
    (hedges : ∀ b', Branch.edges brs' b' = Branch.edges brs b' ++ if b' = t then [b] else []) :
    Fed (g.addUse e.value user).2 brs' := by
  intro b' e' ve' he' hve'
  obtain ⟨ve, hve, -, -, huses⟩ := of_get?_values_addUse hve'
  have hor : (g.addUse e.value user).2.origins brs' ve'.uses =
      (g.addUse e.value user).2.origins brs ve'.uses := by
    simp only [origins, hhome]
  have hiff : e'.value = e.value ↔ b' = t := by
    refine ⟨fun heq => hw.block_unique _ _ _ _ he' ht heq, fun heq => ?_⟩
    subst heq
    rw [Option.some.inj (ht.symm.trans he')]
  rw [hor, huses, origins_addUse hl brs hve, hf b' e' ve he' hve, hedges, hu]
  simp only [hiff, Option.toList_some]

end AddUse

/-! ## Branches -/

/-- The graph with a branch at the end of a block that is not known to use its targets yet. -/
def endBlock (g : Graph) (b : BlockRef) (targets : List BlockRef) : Graph :=
  let i := g.instruction b [.terminatorInst, .branchInst] .br
  { i.2 with values := i.2.values.modify i.1 fun e => { e with successors := targets } }

theorem branch_eq (g : Graph) (b : BlockRef) (targets : List BlockRef) :
    g.branch b targets =
      (⟨g.alloc.1⟩, targets.foldl (addEdge ⟨g.alloc.1⟩) (g.endBlock b targets)) :=
  rfl

section EndBlock

variable {b : BlockRef} {targets : List BlockRef}

theorem get?_instruction_br (g : Graph) (b : BlockRef) :
    (g.instruction b [.terminatorInst, .branchInst] .br).2.values.get? ⟨g.alloc.1⟩ =
      some (instructionEntry b [.terminatorInst, .branchInst] .br) :=
  get?_newValue g _

/-- The instruction that becomes the branch can be classified. -/
theorem valueKind_instruction_br (g : Graph) (b : BlockRef) (policy : UnknownValues) :
    (g.instruction b [.terminatorInst, .branchInst] .br).2.valueKind ⟨g.alloc.1⟩ policy =
      .ok (.ofClass .branchInst) := by
  simp only [valueKind, ofValue_of_get? (get?_instruction_br g b)]
  rfl

theorem get?_endBlock_self (g : Graph) (b : BlockRef) (targets : List BlockRef) :
    (g.endBlock b targets).values.get? ⟨g.alloc.1⟩ =
      some { instructionEntry b [.terminatorInst, .branchInst] .br with successors := targets } := by
  refine (Table.get?_modify _ _ _ _).trans ((if_pos rfl).trans ?_)
  exact congrArg (Option.map _) (get?_instruction_br g b)

theorem get?_endBlock_of_ne {v : ValueRef} (hv : v ≠ ⟨g.alloc.1⟩) :
    (g.endBlock b targets).values.get? v =
      (g.instruction b [.terminatorInst, .branchInst] .br).2.values.get? v :=
  (Table.get?_modify _ _ _ _).trans (if_neg hv)

theorem Routed.endBlock (h : Routed policy g brs) (hf : Fed g brs)
    (hb : ∃ e, g.blocks.get? b = some e) (hnb : b ∉ brs.map (·.block))
    (ht : ∀ t ∈ targets, ∃ e, g.blocks.get? t = some e) :
    Routed policy (g.endBlock b targets) (brs ++ [⟨b, targets, ⟨g.alloc.1⟩⟩]) := by
  let term : ValueRef := ⟨g.alloc.1⟩
  let g₁ := (g.newValue (instructionEntry b [.terminatorInst, .branchInst] .br)).2
  obtain ⟨h1, -⟩ := h.instruction_kept hf hnb ⟨_, valueKind_instruction_br g b policy⟩
  have he : (g.instruction b [.terminatorInst, .branchInst] .br).2.Evolves (g.endBlock b targets) :=
    evolves_modifyValue h1.wellFormed term fun _ => ⟨rfl, rfl, rfl⟩
  refine ⟨he.wellFormed, h1.listed.modifyValue term fun _ => rfl, fun br hbr => ?_,
    fun br hbr => ?_, fun br hbr => ?_, ?_, fun _ _ hb' _ hi => h1.instruction_of_evolves he hb' hi,
    fun v ve hve hn => ?_, fun u ue hue => ?_⟩
  · rcases List.mem_append.mp hbr with hbr | hbr
    · exact h1.last br hbr
    · obtain rfl := List.mem_singleton.mp hbr
      obtain ⟨e, hbe⟩ := hb
      exact ⟨_, get?_putLast_self (g := g₁) term hbe, List.getLast?_concat⟩
  · rcases List.mem_append.mp hbr with hbr | hbr
    · obtain ⟨ve, hve, -⟩ := h.term br hbr
      rw [get?_endBlock_of_ne (ne_newValue h.wellFormed hve)]
      exact h1.term br hbr
    · obtain rfl := List.mem_singleton.mp hbr
      exact ⟨_, get?_endBlock_self g b targets, rfl, rfl⟩
  · rcases List.mem_append.mp hbr with hbr | hbr
    · exact h1.target br hbr
    · obtain rfl := List.mem_singleton.mp hbr
      intro t hm
      obtain ⟨e, hte⟩ := ht t hm
      exact exists_get?_putLast (g := g₁) term hte
  · rw [List.map_append, List.map_singleton, ← List.concat_eq_append]
    exact h.once.concat hnb
  · rw [List.map_append, List.mem_append, not_or] at hn
    have hne : v ≠ term := fun heq => hn.2 (heq ▸ List.mem_singleton_self _)
    exact h1.straight v ve (get?_endBlock_of_ne hne ▸ hve) hn.1
  · obtain ⟨hc, k, hk, hterm⟩ := h1.user_of_evolves he hue
    rw [List.map_append]
    exact ⟨hc, k, hk, fun hi => List.mem_append_left _ (hterm hi)⟩

/-- A branch that does not use its targets yet makes no edge. -/
theorem Fed.endBlock (hf : Fed g brs) (h : Routed policy g brs) (hnb : b ∉ brs.map (·.block)) :
    Fed (g.endBlock b targets) (brs ++ [⟨b, [], ⟨g.alloc.1⟩⟩]) := by
  intro b' e' ve he' hve
  obtain ⟨h1, hf1⟩ := h.instruction_kept hf hnb ⟨_, valueKind_instruction_br g b policy⟩
  obtain ⟨e, hbe, hv, -⟩ := of_get?_modify_instructions he'
  obtain ⟨ve', hve', -⟩ := h.wellFormed.block_value b' e hbe
  rw [get?_endBlock_of_ne (hv ▸ ne_newValue h.wellFormed hve')] at hve
  have hor : (g.endBlock b targets).origins (brs ++ [⟨b, [], ⟨g.alloc.1⟩⟩]) ve.uses =
      (g.instruction b [.terminatorInst, .branchInst] .br).2.origins brs ve.uses := by
    refine List.filterMap_congr fun u hu => ?_
    obtain ⟨ue, hue, -⟩ := h1.listed.used _ ve hve u hu
    -- The user is older than the branch.
    obtain ⟨ue', hue'⟩ := contains_iff.mp (h.user u ue hue).1
    have hue₁ : (g.endBlock b targets).uses.get? u = some ue := hue
    have hne : ⟨g.alloc.1⟩ ≠ ue.user := (ne_newValue h.wellFormed hue').symm
    rw [hue, hue₁, Option.bind_some, Option.bind_some, Branch.home?_concat, if_neg hne,
      Option.or_none]
  rw [hor, hf1 b' e' ve he' hve, Branch.edges_concat_nil]

end EndBlock

/-- A branch makes its edges one by one, in the order of its targets. -/
theorem Routed.addEdges {b : BlockRef} {targets done rest : List BlockRef} {term : ValueRef}
    (h : Routed policy g (brs ++ [⟨b, targets, term⟩])) (hf : Fed g (brs ++ [⟨b, done, term⟩]))
    (hrest : rest ⊆ targets) (hnew : Branch.home? brs term = none) :
    Routed policy (rest.foldl (addEdge term) g) (brs ++ [⟨b, targets, term⟩]) ∧
      Fed (rest.foldl (addEdge term) g) (brs ++ [⟨b, done ++ rest, term⟩]) := by
  induction rest generalizing g done with
  | nil => exact ⟨h, (List.append_nil done).symm ▸ hf⟩
  | cons t rest ih =>
    have hbr : ⟨b, targets, term⟩ ∈ brs ++ [⟨b, targets, term⟩] :=
      List.mem_append_right brs (List.mem_singleton_self _)
    have hhome (ts : List BlockRef) (v : ValueRef) : Branch.home? (brs ++ [⟨b, ts, term⟩]) v =
        (Branch.home? brs v).or (if term = v then some b else none) := Branch.home?_concat _ _ _
    obtain ⟨e, hte⟩ := h.target _ hbr t (hrest List.mem_cons_self)
    obtain ⟨ve, hve, -⟩ := h.term _ hbr
    have hedge : addEdge term g t = (g.addUse e.value term).2 := by rw [addEdge, hte]
    have h1 : Routed policy (addEdge term g t) (brs ++ [⟨b, targets, term⟩]) :=
      hedge ▸ h.addUse (contains_iff.mpr ⟨ve, hve⟩)
        ⟨_, h.valueKind_term hbr, fun _ => List.mem_map_of_mem hbr⟩
    have hf1 : Fed (addEdge term g t) (brs ++ [⟨b, done ++ [t], term⟩]) :=
      hedge ▸ hf.addEdge h.wellFormed h.listed hte (by rw [hhome, hnew, if_pos rfl]; rfl)
        (fun v => (hhome _ v).trans (hhome _ v).symm) (Branch.edges_concat brs b t done term)
    have hgo := ih h1 hf1 (List.subset_of_cons_subset hrest)
    rw [List.append_assoc] at hgo
    exact hgo

/-- A branch out of a block that has none, to blocks that live. -/
theorem Routed.branch (h : Routed policy g brs) (hf : Fed g brs) {b : BlockRef}
    {targets : List BlockRef} (hb : ∃ e, g.blocks.get? b = some e) (hnb : b ∉ brs.map (·.block))
    (ht : ∀ t ∈ targets, ∃ e, g.blocks.get? t = some e) :
    Routed policy (g.branch b targets).2 (brs ++ [⟨b, targets, (g.branch b targets).1⟩]) ∧
      Fed (g.branch b targets).2 (brs ++ [⟨b, targets, (g.branch b targets).1⟩]) := by
  rw [branch_eq]
  refine (h.endBlock hf hb hnb ht).addEdges (hf.endBlock h hnb) (List.Subset.refl _) (Branch.home?_eq_none_iff.mpr fun hm => ?_)
  obtain ⟨br, hbr, heq⟩ := List.mem_map.mp hm
  obtain ⟨ve, hve, -⟩ := h.term br hbr
  rw [heq, get?_alloc_values h.wellFormed] at hve
  exact nomatch hve

end Graph

end CanonIR.Memory
