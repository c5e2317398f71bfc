import CanonIR.Proofs.Flow.Walk
import CanonIR.Proofs.Moves

/-!
Successors and predecessors are inverse relations. A library is built up as a plan, before a context
is bound to it and afterwards, while the users of the context do what they like short of a deletion.
Then the successors of a block are the wrappers of its targets, the predecessors those of its
sources, and a block is a successor of another just when the other is a predecessor of it
(`Flow.Reachable.inverse`). That is so for branches whose targets the library can count: it answers
no number above `Memory.Graph.maxSuccessors`, and targets behind that one are not met
(`Flow.Crowded.not_converse`).
-/

namespace CanonIR

open Memory (Plan)

/-- The bindings over a library, with the branches that were made in it so far. -/
structure Flow where
  world : World Memory.Graph
  branches : List Memory.Branch := []

/-- A wrapper is held, and is what the gate of blocks returns for a block. -/
structure World.Shows (cx : Context) (w : World Memory.Graph) (b : BlockRef) (bb : BasicBlock) :
    Prop where
  held : .value bb.value ∈ w.held
  gate : ((Action.internBlock cx b).apply w).1 = .ok (some bb)

namespace Flow

/-- The library, as far as edges go. -/
def plan (u : Flow) : Plan := ⟨u.world.native, u.branches⟩

/-- What can happen next. -/
inductive Move where
  /-- Something is done to the library past the bindings. -/
  | build (x : Plan.Step)
  | act (a : Primitive)

/-- What is done to the library is in order under the policy of the context. Primitives are proper
and work with what is held. -/
def Enabled (cx : Context) (u : Flow) : Move → Prop
  | .build x => u.plan.Orderly cx.options.unknownValues x
  | .act a => a.Allowed u.world.held ∧ a.Proper u.world.native

instance (cx : Context) (u : Flow) (x : Move) : Decidable (u.Enabled cx x) := by
  cases x <;> unfold Enabled <;> infer_instance

def next (u : Flow) : Move → Flow
  | .build x =>
    let p := u.plan.next x
    ⟨{ u.world with native := p.graph }, p.branches⟩
  | .act a => { u with world := (a.action.apply u.world).2 }

theorem plan_next_build (u : Flow) (x : Plan.Step) : (u.next (.build x)).plan = u.plan.next x := rfl

/-- The states that users of one context can come to, who have made it or bound it over a library
that was built up in order from nothing. -/
inductive Reachable (cx : Context) : Flow → Prop where
  | create (xs : List Plan.Step)
    (hx : Admits (Plan.Orderly cx.options.unknownValues) Plan.next {} xs) (lib : LibraryId)
    (options : ContextOptions) {w : World Memory.Graph}
    (h : (Action.createContext lib options).apply { native := (xs.foldl Plan.next {}).graph } =
      (.ok cx, w)) : Reachable cx ⟨w, (xs.foldl Plan.next {}).branches⟩
  | attach (xs : List Plan.Step)
    (hx : Admits (Plan.Orderly cx.options.unknownValues) Plan.next {} xs) (lib : LibraryId)
    (raw : ContextRef) (options : ContextOptions) {w : World Memory.Graph}
    (h : (Action.attachContext lib raw options).apply { native := (xs.foldl Plan.next {}).graph } =
      (.ok cx, w)) : Reachable cx ⟨w, (xs.foldl Plan.next {}).branches⟩
  | move {u : Flow} (h : Reachable cx u) (x : Move) (hx : u.Enabled cx x) : Reachable cx (u.next x)

/-- Successors and predecessors of blocks. For each result, the block gate goes on to return its
elements for the blocks that they stand for. -/
structure Inverse (cx : Context) (u : Flow) : Prop where
  /-- The successors are the targets of the branch, in operand order, with repetitions, up to the
  last one that is counted. -/
  successors : ∀ a A, u.world.Shows cx a A →
    ∃ bs w, (Operation.successors A).action.apply u.world = (.ok bs, w) ∧
      List.Forall₂ (w.Shows cx) ((u.plan.targets a).take Memory.Graph.maxSuccessors) bs
  /-- The predecessors are the blocks whose branches lead to the block, in the order in which the
  branches were made. -/
  predecessors : ∀ b B, u.world.Shows cx b B →
    ∃ ps w, (Operation.predecessors B).action.apply u.world = (.ok ps, w) ∧
      List.Forall₂ (w.Shows cx) (u.plan.sources b) ps
  /-- Each of the predecessors is there once. -/
  once : ∀ b, (u.plan.sources b).Nodup
  /-- A block is a predecessor of each of its successors. -/
  backward : ∀ a A b B bs ps, u.world.Shows cx a A → u.world.Shows cx b B →
    ((Operation.successors A).action.apply u.world).1 = .ok bs →
    ((Operation.predecessors B).action.apply u.world).1 = .ok ps → B ∈ bs → A ∈ ps
  /-- Where all targets are counted, a block is also a successor of each of its predecessors. -/
  converse : ∀ a A b B bs ps, u.world.Shows cx a A → u.world.Shows cx b B →
    (u.plan.targets a).length ≤ Memory.Graph.maxSuccessors →
    ((Operation.successors A).action.apply u.world).1 = .ok bs →
    ((Operation.predecessors B).action.apply u.world).1 = .ok ps → (B ∈ bs ↔ A ∈ ps)

/-! ## The invariant -/

/-- The invariant: the world is grounded, and the library is laid out. -/
structure Kept (cx : Context) (u : Flow) : Prop where
  grounded : Grounded cx u.world
  laid : u.plan.Laid cx.options.unknownValues

variable {cx : Context} {u : Flow}

/-- A context is bound over a library that is laid out. -/
theorem kept_of_begins {w : World Memory.Graph} {branches : List Memory.Branch} (hb : w.Begins cx)
    (hl : Plan.Laid cx.options.unknownValues ⟨w.native, branches⟩) : Kept cx ⟨w, branches⟩ where
  grounded :=
    { current := hb.current hl.routed.wellFormed
      slot := fun v b hv => by
        rw [hb.held] at hv
        exact absurd (List.mem_singleton.mp hv) nofun }
  laid := hl

namespace Kept

theorem build (h : Kept cx u) {x : Plan.Step} (hx : u.plan.Orderly cx.options.unknownValues x) :
    Kept cx (u.next (.build x)) where
  grounded := h.grounded.evolve (h.laid.evolves hx) (u.plan.renews_next x)
  laid := h.laid.next hx

theorem act (h : Kept cx u) {a : Primitive} (ha : a.Allowed u.world.held)
    (hp : a.Proper u.world.native) : Kept cx (u.next (.act a)) where
  grounded := h.grounded.perform ha hp
  laid := by
    obtain ⟨names, hs⟩ := h.grounded.current.sound
    exact Plan.persists_upholds.perform hs ha (fun c hc => hp.deletes hc) _ _ h.laid

/-- Every move keeps the invariant. -/
theorem next (h : Kept cx u) (x : Move) (hx : u.Enabled cx x) : Kept cx (u.next x) := by
  cases x with
  | build x => exact h.build hx
  | act a => exact h.act hx.1 hx.2

end Kept

/-- A library that was built up in order is laid out. -/
theorem laid_of_admits {policy : UnknownValues} {xs : List Plan.Step}
    (hx : Admits (Plan.Orderly policy) Plan.next {} xs) : (xs.foldl Plan.next {}).Laid policy :=
  hx.foldl (fun _ _ hp hx => hp.next hx) Plan.laid_empty

theorem Reachable.kept (h : Reachable cx u) : Kept cx u := by
  induction h with
  | create xs hx lib options h =>
    obtain ⟨hb, hn⟩ := begins_createContext h
    have hl := laid_of_admits hx
    exact kept_of_begins hb (hn ▸ hl.perform (c := .createContext) rfl)
  | attach xs hx lib raw options h =>
    obtain ⟨hb, hn⟩ := begins_attachContext h
    exact kept_of_begins hb (hn ▸ laid_of_admits hx)
  | move h x hx ih => exact ih.next x hx

/-! ## Wrappers of blocks -/

section Shows

variable {w : World Memory.Graph} {b : BlockRef} {bb : BasicBlock}

/-- The gate of blocks returns nothing for what is no block. -/
theorem internBlock_of_get?_none (hb : w.native.blocks.get? b = none) :
    ((Action.internBlock cx b).apply w).1 = .ok none := by
  cases hn : b.isNull with
  | true => rw [Action.apply_internBlock_null hn]
  | false =>
    have hask : (Action.call cx.library (.blockAsValue b)).apply w = (.ok .null, w) := by
      have hval : w.native.blockValue b = .null := by rw [Memory.Graph.blockValue, hb]; rfl
      rw [← hval]
      rfl
    rw [Action.apply_internBlock hn, hask]
    dsimp only
    rw [Action.apply_blockOf, Action.apply_internValue_null rfl]

/-- What is held and returned by the gate are the wrappers of the living block. -/
theorem shows_iff (h : Grounded cx w) :
    w.Shows cx b bb ↔ .value bb.value ∈ w.held ∧ w.native.Wraps cx b bb := by
  constructor
  · rintro ⟨hheld, hgate⟩
    have hcx : ∃ r ∈ w.held, r.owner = cx := ⟨_, hheld, h.current.owner _ hheld⟩
    refine ⟨hheld, ?_⟩
    cases hb : w.native.blocks.get? b with
    | none =>
      rw [internBlock_of_get?_none hb] at hgate
      exact nomatch hgate
    | some e =>
      obtain ⟨bb', w', hx, ⟨ho, hh⟩, -⟩ := h.block_gate hcx hb
      rw [hx] at hgate
      obtain rfl := Option.some.inj (Except.ok.inj hgate)
      exact ⟨ho, e, hb, hh⟩
  · rintro ⟨hheld, ho, e, he, hh⟩
    obtain ⟨bb', w', hx, ⟨-, hh'⟩, hw', -, hheld'⟩ := h.block_gate ⟨_, hheld, ho⟩ he
    have heq : bb'.value = bb.value := hw'.eq_of_handle (hheld' ▸ List.mem_cons_self)
      (hheld' ▸ List.mem_cons_of_mem _ hheld) (hh'.trans hh.symm)
    exact ⟨hheld, by rw [hx, Viewed.eq_of_value heq]⟩

/-- What a walk yields are wrappers that the gate returns, as it does those that were held. -/
theorem shows_of_yields {bs : List BlockRef} {op : Operation (List BasicBlock)} (h : Grounded cx w)
    (hy : op.Yields cx w.native w.held w.held (List.Forall₂ (w.native.Wraps cx) bs)) :
    ∃ xs w', op.action.apply w = (.ok xs, w') ∧ Grounded cx w' ∧
      (∀ b bb, w.Shows cx b bb → w'.Shows cx b bb) ∧ List.Forall₂ (w'.Shows cx) bs xs := by
  obtain ⟨xs, w', hx, hall, hs⟩ := hy w ⟨h, rfl, List.Perm.refl _⟩
  refine ⟨xs, w', hx, hs.grounded, fun b bb hbb => ?_, ?_⟩
  · obtain ⟨hheld, hw⟩ := (shows_iff h).mp hbb
    exact (shows_iff hs.grounded).mpr
      ⟨hs.mem_held (List.mem_append_right _ hheld), hs.native.symm ▸ hw⟩
  · have hmem : List.Forall₂ (fun bb b => bb ∈ xs ∧ w.native.Wraps cx b bb) xs bs :=
      (List.forall₂_and_left xs bs).mpr ⟨fun _ hm => hm, hall.flip⟩
    refine (hmem.imp fun bb b hbb => ?_).flip
    have hheld : .value bb.value ∈ Carries.references xs :=
      List.mem_flatMap.mpr ⟨bb, hbb.1, List.mem_singleton_self _⟩
    exact (shows_iff hs.grounded).mpr
      ⟨hs.mem_held (List.mem_append_left _ hheld), hs.native.symm ▸ hbb.2⟩

/-- A wrapper comes up in a walk just when its block is one of those that the walk is about. -/
theorem mem_iff_of_shows (h : Grounded cx w) {bs : List BlockRef} {xs : List BasicBlock}
    (hall : List.Forall₂ (w.Shows cx) bs xs) (hbb : w.Shows cx b bb) : bb ∈ xs ↔ b ∈ bs := by
  obtain ⟨hheld, hw⟩ := (shows_iff h).mp hbb
  obtain ⟨e, he, hh⟩ := hw.block
  constructor
  · intro hm
    obtain ⟨b', hb', hs⟩ := exists_mem_of_forall₂ hall.flip hm
    obtain ⟨-, hw'⟩ := (shows_iff h).mp hs
    obtain ⟨e', he', hh'⟩ := hw'.block
    exact h.current.graph.block_unique b' e' b e he' he (hh'.symm.trans hh) ▸ hb'
  · intro hm
    obtain ⟨bb', hbb', hs⟩ := exists_mem_of_forall₂ hall hm
    rw [Option.some.inj (Except.ok.inj (hbb.gate.symm.trans hs.gate))]
    exact hbb'

end Shows

/-! ## The walks -/

namespace Kept

variable {a b : BlockRef} {A B : BasicBlock} {bs ps : List BasicBlock}

theorem successors (h : Kept cx u) (hA : u.world.Shows cx a A) :
    ∃ bs w, (Operation.successors A).action.apply u.world = (.ok bs, w) ∧ Grounded cx w ∧
      (∀ b bb, u.world.Shows cx b bb → w.Shows cx b bb) ∧
      List.Forall₂ (w.Shows cx) ((u.plan.targets a).take Memory.Graph.maxSuccessors) bs := by
  obtain ⟨hheld, hw⟩ := (shows_iff h.grounded).mp hA
  exact shows_of_yields h.grounded (Operation.yields_successors h.laid hheld hw)

theorem predecessors (h : Kept cx u) (hB : u.world.Shows cx b B) :
    ∃ ps w, (Operation.predecessors B).action.apply u.world = (.ok ps, w) ∧ Grounded cx w ∧
      (∀ b bb, u.world.Shows cx b bb → w.Shows cx b bb) ∧
      List.Forall₂ (w.Shows cx) (u.plan.sources b) ps := by
  obtain ⟨hheld, hw⟩ := (shows_iff h.grounded).mp hB
  exact shows_of_yields h.grounded (Operation.yields_predecessors h.laid hheld hw)

theorem mem_successors_iff (h : Kept cx u) (hA : u.world.Shows cx a A) (hB : u.world.Shows cx b B)
    (hbs : ((Operation.successors A).action.apply u.world).1 = .ok bs) :
    B ∈ bs ↔ b ∈ (u.plan.targets a).take Memory.Graph.maxSuccessors := by
  obtain ⟨bs', w, hx, hw, hshows, hall⟩ := h.successors hA
  rw [hx] at hbs
  obtain rfl := Except.ok.inj hbs
  exact mem_iff_of_shows hw hall (hshows b B hB)

theorem mem_predecessors_iff (h : Kept cx u) (hA : u.world.Shows cx a A)
    (hB : u.world.Shows cx b B)
    (hps : ((Operation.predecessors B).action.apply u.world).1 = .ok ps) :
    A ∈ ps ↔ b ∈ u.plan.targets a := by
  obtain ⟨ps', w, hx, hw, hshows, hall⟩ := h.predecessors hB
  rw [hx] at hps
  obtain rfl := Except.ok.inj hps
  exact (mem_iff_of_shows hw hall (hshows a A hA)).trans h.laid.mem_sources_iff

/-- A wrapper of a block goes on to be what the gate returns, as long as the block lives. -/
theorem shows_build (h : Kept cx u) {x : Plan.Step}
    (hx : u.plan.Orderly cx.options.unknownValues x) {bb : BasicBlock}
    (hbb : u.world.Shows cx b bb) (hb : ∃ e, (u.plan.next x).graph.blocks.get? b = some e) :
    (u.next (.build x)).world.Shows cx b bb := by
  obtain ⟨hheld, ho, e, he, hh⟩ := (shows_iff h.grounded).mp hbb
  obtain ⟨e', he'⟩ := hb
  obtain ⟨e₀, he₀, hval⟩ := (h.laid.evolves hx).keeps.blocks b e' he'
    (h.laid.routed.wellFormed.block_handed b e he)
  obtain rfl := Option.some.inj (he.symm.trans he₀)
  exact (shows_iff (h.build hx).grounded).mpr ⟨hheld, ho, e', he', hh.trans hval.symm⟩

end Kept

/-- In every state that the users of the context come to, successors and predecessors are what the
branches say, and inverse to each other. -/
theorem Reachable.inverse (h : Reachable cx u) : Inverse cx u := by
  have hk := h.kept
  refine ⟨fun a A hA => ?_, fun b B hB => ?_, hk.laid.nodup_sources,
    fun a A b B bs ps hA hB hbs hps => ?_, fun a A b B bs ps hA hB hle hbs hps => ?_⟩
  · obtain ⟨bs, w, hx, -, -, hall⟩ := hk.successors hA
    exact ⟨bs, w, hx, hall⟩
  · obtain ⟨ps, w, hx, -, -, hall⟩ := hk.predecessors hB
    exact ⟨ps, w, hx, hall⟩
  · intro hm
    have hb := (hk.mem_successors_iff hA hB hbs).mp hm
    exact (hk.mem_predecessors_iff hA hB hps).mpr (List.mem_of_mem_take hb)
  · calc B ∈ bs
      _ ↔ b ∈ (u.plan.targets a).take Memory.Graph.maxSuccessors :=
        hk.mem_successors_iff hA hB hbs
      _ ↔ b ∈ u.plan.targets a := by rw [List.take_of_length_le hle]
      _ ↔ A ∈ ps := (hk.mem_predecessors_iff hA hB hps).symm

/-! ## A run -/

theorem Reachable.moves (h : Reachable cx u) {xs : List Move}
    (hx : Admits (Enabled cx) next u xs) : Reachable cx (xs.foldl next u) :=
  hx.foldl (fun _ x hu hx => hu.move x hx) h

/-- A function with two blocks, of which the first leads to the second twice and to itself. -/
def looping : List Plan.Step :=
  let address (n : Nat) : Nat := Memory.Graph.baseAddress + n * Memory.Graph.stride
  [.build .function, .build (.appendBlock ⟨address 1⟩ "head"),
    .build (.appendBlock ⟨address 1⟩ "tail"),
    .build (.branch ⟨address 3⟩ [⟨address 5⟩, ⟨address 3⟩, ⟨address 5⟩])]

/-- The blocks are wrapped, and the second one is led back to the first. -/
def closing (cx : Context) : List Move :=
  let address (n : Nat) : Nat := Memory.Graph.baseAddress + n * Memory.Graph.stride
  [.act (.internBlock cx ⟨address 3⟩), .act (.internBlock cx ⟨address 5⟩),
    .build (.build (.branch ⟨address 5⟩ [⟨address 3⟩]))]

theorem inverse_looping :
    let address (n : Nat) : Nat := Memory.Graph.baseAddress + n * Memory.Graph.stride
    let head : BlockRef := ⟨address 3⟩
    let tail : BlockRef := ⟨address 5⟩
    let cx : Context := ⟨0, ⟨0⟩, ⟨address 10⟩, true, {}⟩
    let p := looping.foldl Plan.next {}
    let w := ((Action.createContext ⟨0⟩ {}).apply { native := p.graph }).2
    let u := (closing cx).foldl next ⟨w, p.branches⟩
    let H : BasicBlock := ⟨⟨1, cx, ⟨address 2⟩, .ofClass .basicBlock⟩, rfl⟩
    u.world.Shows cx head H ∧ u.plan.targets head = [tail, head, tail] ∧
      u.plan.sources head = [head, tail] ∧ Inverse cx u := by
  intro address head tail cx p w u H
  have hp : Admits (Plan.Orderly cx.options.unknownValues) Plan.next {} looping := by decide +kernel
  have hw : Reachable cx ⟨w, p.branches⟩ :=
    .create looping hp ⟨0⟩ {} (Prod.ext (by decide +kernel) rfl)
  have hu : Reachable cx u := hw.moves (by decide +kernel)
  have hH : u.world.Shows cx head H := ⟨by decide +kernel, by decide +kernel⟩
  exact ⟨hH, by decide +kernel, by decide +kernel, hu.inverse⟩

/-! ## More targets than are counted -/

namespace Crowded

def address (n : Nat) : Nat := Memory.Graph.baseAddress + n * Memory.Graph.stride

def context : Context := ⟨0, ⟨0⟩, ⟨address 1⟩, true, {}⟩

def head : BlockRef := ⟨address 4⟩

def tail : BlockRef := ⟨address 6⟩

/-- The wrapper of `head`. -/
def headBlock : BasicBlock := ⟨⟨1, context, ⟨address 3⟩, .ofClass .basicBlock⟩, rfl⟩

/-- The wrapper of `tail`. -/
def tailBlock : BasicBlock := ⟨⟨2, context, ⟨address 5⟩, .ofClass .basicBlock⟩, rfl⟩

/-- A function with two blocks, which are wrapped. -/
def wrapping : List Move :=
  [.build (.build .function), .build (.build (.appendBlock ⟨address 2⟩ "head")),
    .build (.build (.appendBlock ⟨address 2⟩ "tail")), .act (.internBlock context head),
    .act (.internBlock context tail)]

def wrapped : Flow :=
  wrapping.foldl next ⟨((Action.createContext ⟨0⟩ {}).apply { native := {} }).2, []⟩

/-- The first block as often as targets are counted, and then the second one. -/
def targets : List BlockRef := List.replicate Memory.Graph.maxSuccessors head ++ [tail]

theorem reachable_wrapped : Reachable context wrapped :=
  have hw : Reachable context ⟨((Action.createContext ⟨0⟩ {}).apply { native := {} }).2, []⟩ :=
    .create [] trivial ⟨0⟩ {} (Prod.ext (by decide +kernel) rfl)
  hw.moves (by decide +kernel)

theorem mem_targets_iff {b : BlockRef} : b ∈ targets ↔ b = head ∨ b = tail := by
  have hmax : Memory.Graph.maxSuccessors ≠ 0 := by decide
  rw [targets, List.mem_append, List.mem_replicate, List.mem_singleton, and_iff_right hmax]

theorem orderly_branch :
    wrapped.plan.Orderly context.options.unknownValues (.build (.branch head targets)) := by
  refine ⟨⟨by decide +kernel, by decide +kernel⟩, fun t ht => ?_⟩
  rcases mem_targets_iff.mp ht with rfl | rfl
  · decide +kernel
  · decide +kernel

/-- The first block is led to the targets. -/
def crowded : Flow := wrapped.next (.build (.build (.branch head targets)))

theorem reachable_crowded : Reachable context crowded :=
  reachable_wrapped.move (.build (.build (.branch head targets))) orderly_branch

theorem targets_crowded : crowded.plan.targets head = targets := by
  rw [crowded, plan_next_build]
  exact reachable_wrapped.kept.laid.targets_branch orderly_branch

theorem shows_crowded {b : BlockRef} {bb : BasicBlock} (hbb : wrapped.world.Shows context b bb)
    (hb : b = head ∨ b = tail) : crowded.world.Shows context b bb := by
  refine reachable_wrapped.kept.shows_build orderly_branch hbb ?_
  rw [← plan_next_build]
  exact reachable_crowded.kept.laid.exists_of_mem_targets
    (targets_crowded ▸ mem_targets_iff.mpr hb)

/-- The second block is among the targets of the first, and the first among its predecessors, but it
is none of the successors of the first. -/
theorem not_converse :
    Reachable context crowded ∧ crowded.plan.targets head = targets ∧
      crowded.world.Shows context head headBlock ∧ crowded.world.Shows context tail tailBlock ∧
      ∃ bs ps, ((Operation.successors headBlock).action.apply crowded.world).1 = .ok bs ∧
        ((Operation.predecessors tailBlock).action.apply crowded.world).1 = .ok ps ∧
        tail ∈ targets ∧ headBlock ∈ ps ∧ tailBlock ∉ bs := by
  have hk := reachable_crowded.kept
  have hhead : crowded.world.Shows context head headBlock :=
    shows_crowded ⟨by decide +kernel, by decide +kernel⟩ (Or.inl rfl)
  have htail : crowded.world.Shows context tail tailBlock :=
    shows_crowded ⟨by decide +kernel, by decide +kernel⟩ (Or.inr rfl)
  have hmem : tail ∈ targets := mem_targets_iff.mpr (Or.inr rfl)
  obtain ⟨bs, w, hx, -⟩ := hk.successors hhead
  obtain ⟨ps, w', hx', -⟩ := hk.predecessors htail
  have hbs := congrArg Prod.fst hx
  have hps := congrArg Prod.fst hx'
  refine ⟨reachable_crowded, targets_crowded, hhead, htail, bs, ps, hbs, hps, hmem, ?_, fun hm => ?_⟩
  · exact (hk.mem_predecessors_iff hhead htail hps).mpr (targets_crowded.symm ▸ hmem)
  · -- The count ends with the last repetition of the first block.
    have hcut := (hk.mem_successors_iff hhead htail hbs).mp hm
    rw [targets_crowded, targets, List.take_left' List.length_replicate] at hcut
    exact absurd (List.eq_of_mem_replicate hcut) (by decide)

end Crowded

end Flow

end CanonIR
