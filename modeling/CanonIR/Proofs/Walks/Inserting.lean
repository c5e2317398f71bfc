import CanonIR.Proofs.Memory.Insertion
import CanonIR.Proofs.Walks.Instructions
import CanonIR.Proofs.Walks.Layout

/-!
Blocks made in front of others. The library makes a block at addresses that nobody has seen yet, so
the gate finds no wrapper of it and makes one, which takes its place in the cache and comes with the
block shape. All that the wrapper is asked for then shows an empty block in its place
(`Shapes.Reachable.insertsBefore`).
-/

namespace CanonIR

open Memory (Graph BlockEntry Side)

/-! ## A wrapper that comes -/

/-- A new wrapper is held and has taken its place; whatever else lives stands where it stood. -/
structure World.Joined {σ : Type} (y : ValueWrapper) (w w' : World σ) : Prop where
  other : ∀ r ∈ w.held, r.id ≠ y.id
  held : w'.held = .value y :: w.held
  nextId : y.id = w.nextId ∧ w'.nextId = w.nextId + 1
  place : w'.occupant? ⟨y.context.id, .value, y.handle.address⟩ = some (.value y)
  come : ∀ p r, w'.occupant? p = some r → r = .value y ∨ w.occupant? p = some r
  stay : ∀ p r, w.occupant? p = some r → r ∈ w.held → w'.occupant? p = some r
  registry : w'.registry = w.registry
  blockRefs : ∀ i b, w.blockRefs.get? i = some b → w'.blockRefs.get? i = some b

/-- What stood in its place before still does. -/
theorem World.Untouched.joined {σ : Type} {y : ValueWrapper} {w w' w'' : World σ}
    (h : w.Untouched w') (h' : w'.Joined y w'') : w.Joined y w'' where
  other r hr := h'.other r (h.held ▸ hr)
  held := h'.held.trans (congrArg _ h.held)
  nextId := h.nextId ▸ h'.nextId
  place := h'.place
  come p r hr := h.occupant p ▸ h'.come p r hr
  stay p r hr hm := h'.stay p r ((h.occupant p).trans hr) (h.held ▸ hm)
  registry := h'.registry.trans h.registry
  blockRefs i b hb := h'.blockRefs i b (h.blockRefs i b hb)

/-- The gate makes a wrapper of a living block that has none. -/
theorem Ready.gate_new {log : List Forgetting} {w : World Recorders} {cx : Context}
    (h : Ready log w) (hcx : ∃ r ∈ w.held, r.owner = cx) {b : BlockRef} {e : BlockEntry}
    (hb : (w.graph cx.library).blocks.get? b = some e)
    (hnew : ∀ y, .value y ∈ w.held → y.context = cx → y.handle ≠ e.value) :
    ∃ q w', (Operation.internBlock cx b).action.apply w = (.ok (some q), w') ∧
      w'.Stands cx e.value q.value ∧ w.Joined q.value w' ∧
      w'.blockRefs.get? q.value.id = some b ∧ w.native.Noted w'.native ∧ Ready log w' := by
  obtain ⟨names, hs⟩ := h.sound
  obtain ⟨q, w₁, -, hblock, hmet, -⟩ := h.shaped.block_gates hs hcx hb
  obtain ⟨x, w', hx, hg⟩ := gated_internBlock hs hcx b
  obtain ⟨rfl, hw'⟩ := Prod.mk.inj (hx.symm.trans hblock)
  have hlive : (w.graph cx.library).blocks.contains b = true :=
    Memory.Graph.contains_iff.mpr ⟨e, hb⟩
  obtain ⟨hready, -⟩ := h.perform (a := .internBlock cx b) hcx (Or.inr hlive) rfl hx
  have hkeeps : w.Keeps w' := by
    have hk := hs.keeps_perform (a := .internBlock cx b) hcx rfl rfl rfl
    change w.Keeps ((Action.internBlock cx b).apply w).2 at hk
    rwa [hx] at hk
  have hnoted : w.native.Noted w'.native := by
    have hn := Recorders.persists_noted.internBlock hs hcx (b := b) rfl (fun _ _ => rfl) fun _ => rfl
    rwa [hx] at hn
  have hheld : w'.held = .value q.value :: w.held := hg.held
  have hst : w'.Stands cx e.value q.value := hw' ▸ hmet.noteBlockRef.stands
  clear hw'
  -- The gate has found no wrapper, since none of the value shape is held.
  obtain ⟨hid, hnext, hknown⟩ : q.value.id = w.nextId ∧ w'.nextId = w.nextId + 1 ∧
      w'.blockRefs.get? q.value.id = some b := by
    change GatedBlock cx b w (some q) w' at hg
    cases hg with | found ha hg =>
    cases hg with
    | hit hr halive =>
      have hm := ha.held ▸ (hs.aside ha).mem_of_holds hr halive
      exact absurd hst.handle (hnew _ hm hst.context)
    | miss ha' _ _ hid _ _ he =>
      obtain ⟨s, ev, rfl⟩ := ha.trans ha'
      have hnone : w.blockRefs.get? q.value.id = none := by
        rw [Option.eq_none_iff_forall_ne_some]
        exact fun b' hb' => Nat.lt_irrefl _ (hid ▸ h.shaped.slot_lt _ b' hb')
      refine ⟨hid, ?_, World.get?_noteBlockRef ?_⟩
      · rw [World.nextId_noteBlockRef, he.frame]
        rfl
      · rw [he.frame]
        exact hnone
  obtain ⟨names', hs'⟩ := hready.sound
  have hlt (r : Reference) (hr : r ∈ w.held) : r.id < q.value.id := hid ▸ (hs.held_named r hr).lt
  refine ⟨q, w', hx, hst, ?_, hknown, hnoted, hready⟩
  exact
    { other := fun r hr => Nat.ne_of_lt (hlt r hr)
      held := hheld
      nextId := ⟨hid, hnext⟩
      place := by rw [hst.context, hst.handle]; exact hst.place
      come := fun p r hr => by
        refine (hkeeps.old p r hr).symm.imp_left fun hle => ?_
        have hn := hs'.occupant_named p r hr
        have hlt := hn.lt
        exact hn.eq_of_id_eq (hs'.held_named _ hst.held) (by show r.id = q.value.id; omega)
      stay := fun p r hr hm => hkeeps.kept p r hr (World.holds_of_mem hm)
      registry := hkeeps.registry
      blockRefs := hkeeps.blockRefs }

/-! ## A block that is empty -/

/-- What an operation leads to from the world that it is run in. -/
theorem Ready.runs {log : List Forgetting} {w : World Recorders} (h : Ready log w) {α : Type}
    [Carries α] {op : Operation α} {x : α} {l : List Reference}
    (hop : Operation.Leads (Asking log w.native) w.held op l (· = x)) :
    ∃ w', op.action.apply w = (.ok x, w') := by
  obtain ⟨_, w', hx, rfl, -⟩ := hop w h.asking
  exact ⟨w', hx⟩

namespace Operation

variable {log : List Forgetting} {s : Recorders} {l : List Reference}

/-- A value without uses has no users. -/
theorem leads_users_unused {v : ValueWrapper} {ve : Memory.ValueEntry}
    (hve : (s.recorder v.context.library).graph.values.get? v.handle = some ve)
    (hu : ve.uses = []) : Leads (Asking log s) l (users v) l (· = []) := by
  have hfirst : ((s.recorder v.context.library).graph.perform (.firstUse v.handle)).1 =
      .ok .null := by
    refine congrArg Except.ok ((Graph.ofValue_of_get? hve _ _).trans ?_)
    rw [hu]
    rfl
  refine (leads_ask v rfl hfirst).bind fun u hu => ?_
  obtain rfl : u = .null := hu
  refine (leads_walkLimit v.context.library).bind fun limit _ => ?_
  have hend : usersFrom v limit .null = pure [] := by cases limit <;> rfl
  rw [hend]
  exact leads_pure (Asking.tenable log s) (List.Perm.refl _) rfl

/-- A block without uses has no predecessors. -/
theorem leads_predecessors_unused {bb : BasicBlock} {ve : Memory.ValueEntry}
    (hve : (s.recorder bb.value.context.library).graph.values.get? bb.value.handle = some ve)
    (hu : ve.uses = []) : Leads (Asking log s) l (predecessors bb) l (· = []) := by
  have hfirst : ((s.recorder bb.value.context.library).graph.perform
      (.firstUse bb.value.handle)).1 = .ok .null := by
    refine congrArg Except.ok ((Graph.ofValue_of_get? hve _ _).trans ?_)
    rw [hu]
    rfl
  refine (leads_ask bb.value rfl hfirst).bind fun u hu => ?_
  obtain rfl : u = .null := hu
  refine (leads_walkLimit bb.value.context.library).bind fun limit _ => ?_
  have hend : predecessorsFrom bb limit [] .null = pure [] := by cases limit <;> rfl
  rw [hend]
  exact leads_pure (Asking.tenable log s) (List.Perm.refl _) rfl

variable {bb : BasicBlock} {b : BlockRef} {e : BlockEntry}

/-- A block without instructions has no successors. -/
theorem leads_successors_empty (h : bb.Opens s b e) (hbb : .value bb.value ∈ l)
    (hi : e.instructions = []) : Leads (Asking log s) l (successors bb) l (· = []) := by
  refine (leads_terminator h hbb).bind fun t ht => ?_
  rw [hi] at ht
  cases t with
  | none => exact leads_pure (Asking.tenable log s) (List.Perm.refl _) rfl
  | some t => nomatch ht

end Operation

/-! ## A block that is made -/

/-- A new block, with the block shape `n` and the value shape `v`, was made in front of the block `b`
in the layout of a function, and comes with the wrapper `q`. -/
structure World.Inserted (log : List Forgetting) (bb : BasicBlock) (b : BlockRef) (name : String)
    (f : ValueRef) (pre post : List BlockRef) (n : BlockRef) (v : ValueRef) (q : BasicBlock)
    (w w' : World Recorders) : Prop where
  run : (Operation.insertBefore bb name).action.apply w = (.ok (some q), w')
  /-- The library has gained an empty block with that name, in that place, and nothing else. -/
  gains : (w.graph bb.value.context.library).Gains f name n v (w'.graph bb.value.context.library)
  layout : ∀ f', (w'.graph bb.value.context.library).layout f' =
    if f' = f then pre ++ n :: b :: post else (w.graph bb.value.context.library).layout f'
  libraries : ∀ lib, lib ≠ bb.value.context.library → w'.graph lib = w.graph lib
  /-- The bindings have gained one wrapper, which is the canonical one of the block, and has its
  block shape without a question. -/
  joined : w.Joined q.value w'
  presents : w'.Presents log bb.value.context v q.value
  known : (Operation.blockRef q).action.apply w' = (.ok n, w')

namespace Ready

variable {log : List Forgetting} {w : World Recorders} {bb : BasicBlock} {b : BlockRef}

/-- Up to the gate, nothing but the block shape is asked for, and one call is made. -/
theorem insertBefore (h : Ready log w) {n : BlockRef} {name : String} {g : Graph}
    (hbb : .value bb.value ∈ w.held) (hb : w.Denotes bb.value b)
    (hg : (w.graph bb.value.context.library).insertBlockBefore b name = (n, g)) :
    ∃ w', (Operation.insertBefore bb name).action.apply w =
        (Operation.internBlock bb.value.context n).action.apply w' ∧
      w.Untouched w' ∧ w'.graph bb.value.context.library = g ∧
      (∀ lib, lib ≠ bb.value.context.library → w'.native.recorder lib = w.native.recorder lib) ∧
      Ready log w' := by
  obtain ⟨w₁, hw₁, hf₁⟩ := h.shaped.blockRef_footprint hbb hb
  have h₁ : Ready log w₁ := (h.perform (a := .blockRef bb) hbb trivial rfl hw₁).1
  have hr₁ := hf₁.relaid .null
  have hcall : (w₁.graph bb.value.context.library).perform
      (.insertBlockBefore bb.value.context.raw b name) = (.ok n, g) := by
    have hsame : w₁.graph bb.value.context.library = w.graph bb.value.context.library := hf₁.graph
    simp only [Graph.perform, hsame, hg]
  obtain ⟨w₂, hw₂, hu₂, hg₂, hlibs₂, h₂⟩ := h₁.tell bb.value hcall
  refine ⟨w₂, ?_, hr₁.bindings.trans hu₂, hg₂, fun lib hl => ?_, h₂⟩
  · rw [Operation.insertBefore, Operation.apply_bind_of_ok hw₁, Operation.apply_bind_of_ok hw₂]
  · exact (hlibs₂ lib hl).trans (hr₁.libraries lib hl)

/-- In front of a block in a layout, a block is made. -/
theorem inserted (h : Ready log w) (hbb : .value bb.value ∈ w.held) (hb : w.Denotes bb.value b)
    {f : ValueRef} {pre post : List BlockRef}
    (hl : (w.graph bb.value.context.library).layout f = pre ++ b :: post) (name : String) :
    ∃ n v q w', w.Inserted log bb b name f pre post n v q w' ∧ Ready log w' := by
  obtain ⟨n, v, g, hins, hgains, hlayout⟩ :=
    (h.placed bb.value.context.library).insertBlockBefore_of_split hl name
  obtain ⟨w₁, hrun, hu₁, rfl, hlibs, h₁⟩ := h.insertBefore hbb hb hins
  have hn := (hgains.blocks n).trans (if_pos rfl)
  have hcx : ∃ r ∈ w₁.held, r.owner = bb.value.context := ⟨_, hu₁.held ▸ hbb, rfl⟩
  -- Nobody has seen the new addresses, so no wrapper has them.
  have hnew (y : ValueWrapper) (hy : .value y ∈ w₁.held) (hc : y.context = bb.value.context) :
      y.handle ≠ v := by
    rintro rfl
    exact hgains.value_fresh (hc ▸ (h.shaped.fits y (hu₁.held ▸ hy)).handed)
  obtain ⟨q, w', hq, hst, hjoined, hknown, hnoted, h'⟩ := h₁.gate_new hcx hn hnew
  have hgraph (lib : LibraryId) : w'.graph lib = w₁.graph lib := hnoted.graph lib
  obtain ⟨names, hs⟩ := h'.sound
  refine ⟨n, v, q, w', ?_, h'⟩
  exact
    { run := hrun.trans hq
      gains := hgraph _ ▸ hgains
      layout := fun f' => hgraph _ ▸ hlayout f'
      libraries := fun lib hl => (hgraph lib).trans (congrArg (·.graph) (hlibs lib hl))
      joined := hu₁.joined hjoined
      presents := ⟨hst.context, hst.handle, hst.held, hs.fresh _ _ hst.place⟩
      known := apply_blockRef_known hknown }

/-- In front of a block in no layout, none is made. -/
theorem not_inserted (h : Ready log w) (hbb : .value bb.value ∈ w.held)
    (hb : w.Denotes bb.value b)
    (hout : ∀ f, b ∉ (w.graph bb.value.context.library).layout f) (name : String) :
    ∃ w', (Operation.insertBefore bb name).action.apply w = (.ok none, w') ∧
      (∀ lib, w'.graph lib = w.graph lib) ∧ w.Untouched w' := by
  obtain ⟨w', hrun, hu, hg, hlibs, -⟩ :=
    h.insertBefore hbb hb (Graph.insertBlockBefore_of_not_mem hout name)
  have hnone : (Operation.internBlock bb.value.context .null).action.apply w' = (.ok none, w') := by
    show (Action.internBlock bb.value.context .null).apply w' = _
    exact Action.apply_internBlock_null rfl
  refine ⟨w', hrun.trans hnone, fun lib => ?_, hu⟩
  by_cases hl : lib = bb.value.context.library
  · exact hl ▸ hg
  · exact congrArg (·.graph) (hlibs lib hl)

end Ready

/-! ## What the new block shows -/

namespace World.Inserted

variable {log : List Forgetting} {w w' : World Recorders} {bb : BasicBlock} {b : BlockRef}
variable {name : String} {f : ValueRef} {pre post : List BlockRef} {n : BlockRef} {v : ValueRef}
variable {q : BasicBlock}

theorem shows (h : w.Inserted log bb b name f pre post n v q w') :
    q.value.Shows log bb.value.context v :=
  ⟨h.presents.context, h.presents.handle, h.presents.canonical.2⟩

theorem get?_block (h : w.Inserted log bb b name f pre post n v q w') :
    (w'.graph q.value.context.library).blocks.get? n = some ⟨v, f, []⟩ := by
  rw [h.presents.context, h.gains.blocks, if_pos rfl]

theorem get?_value (h : w.Inserted log bb b name f pre post n v q w') :
    (w'.graph q.value.context.library).values.get? q.value.handle =
      some { probes := [.basicBlock], name } := by
  rw [h.presents.context, h.presents.handle, h.gains.values, if_pos rfl]

theorem denotes (h : w.Inserted log bb b name f pre post n v q w') : w'.Denotes q.value n :=
  ⟨_, h.get?_block, h.presents.handle.symm⟩

/-- The blocks that were there are what they were. -/
theorem get?_old (h : w.Inserted log bb b name f pre post n v q w')
    (hp : (w.graph bb.value.context.library).Placed) {c : BlockRef} {e : BlockEntry}
    (hc : (w.graph bb.value.context.library).blocks.get? c = some e) :
    (w'.graph bb.value.context.library).blocks.get? c = some e := by
  rw [h.gains.blocks, if_neg, hc]
  rintro rfl
  exact h.gains.block_fresh (hp.block_handed c e hc)

theorem denotes_old (h : w.Inserted log bb b name f pre post n v q w')
    (hp : (w.graph bb.value.context.library).Placed) {y : ValueWrapper} {c : BlockRef}
    (hy : y.context = bb.value.context) (hc : w.Denotes y c) : w'.Denotes y c := by
  obtain ⟨e, he, hv⟩ := hc
  rw [hy] at he
  exact ⟨e, hy ▸ h.get?_old hp he, hv⟩

theorem opens (h : w.Inserted log bb b name f pre post n v q w') (h' : Ready log w') :
    q.Opens w'.native n ⟨v, f, []⟩ where
  wellFormed := h'.shaped.graph _
  block := h.get?_block
  value := h.presents.handle.symm
  recognized _ hi := nomatch hi

/-- A block that stood in front of the other one, or the other one itself, has the new block for its
neighbour. -/
theorem neighbour (h : w.Inserted log bb b name f pre post n v q w') (h' : Ready log w')
    (hp : (w.graph bb.value.context.library).Placed) (side : Side) {pb : BasicBlock} {p : BlockRef}
    {xs ys : List BlockRef} (hpb : .value pb.value ∈ w.held)
    (hcx : pb.value.context = bb.value.context) (hpd : w.Denotes pb.value p)
    (hl : pre ++ n :: b :: post = side.place xs p n ys) :
    ∃ w₁, (side.step pb).action.apply w' = (.ok (some q), w₁) := by
  have hheld : .value pb.value ∈ w'.held := h.joined.held ▸ List.mem_cons_of_mem _ hpb
  refine (h'.step_iff side hheld h.presents.canonical.1 (h.presents.context.trans hcx.symm)
    (h.denotes_old hp hcx hpd) h.denotes h.presents.canonical.2).mpr ?_
  rw [hcx]
  have hplace : (w'.graph bb.value.context.library).layout f = side.place xs p n ys := by
    rw [h.layout, if_pos rfl, hl]
  exact (h'.placed _).neighbour_of_place hplace

/-- The other block comes next, with its canonical wrapper. -/
theorem next (h : w.Inserted log bb b name f pre post n v q w') (h' : Ready log w') :
    ∃ x w₁, (Operation.next q).action.apply w' = (.ok (some x), w₁) ∧
      w₁.PresentsBlock log bb.value.context b x ∧
      ∀ y : BasicBlock, .value y.value ∈ w'.held →
        y.Shows log w'.native bb.value.context b → x = y := by
  have hl : Side.before.along ((w'.graph bb.value.context.library).layout f) =
      pre ++ n :: b :: post := (h.layout f).trans (if_pos rfl)
  have hshows : q.Shows log w'.native bb.value.context n :=
    ⟨_, h.presents.context ▸ h.get?_block, h.shows⟩
  obtain ⟨_, w₁, hx, hrel, hw₁⟩ := Operation.leads_step_along .before (h'.placed _) hl hshows
    h.presents.canonical.1 w' h'.asking
  cases hrel with | some hxb =>
  refine ⟨_, w₁, hx, hw₁.presentsBlock hxb List.mem_cons_self, fun y hy hyb => ?_⟩
  obtain ⟨e, he, hxv⟩ := hxb
  obtain ⟨e', he', hyv⟩ := hyb
  obtain rfl := Option.some.inj (he.symm.trans he')
  exact Viewed.eq_of_value
    (hw₁.eq_of_shows hxv hyv List.mem_cons_self (List.mem_cons_of_mem _ hy))

end World.Inserted

namespace Shapes

/-- A new block was made in front of another one, in one go, and whatever its wrapper is asked for
then shows an empty block there. -/
structure Inserted (m : Machine Recorders) (bb : BasicBlock) (b : BlockRef) (name : String)
    (f : ValueRef) (pre post : List BlockRef) (n : BlockRef) (v : ValueRef) (q : BasicBlock)
    (w' : World Recorders) : Prop extends m.world.Inserted m.log bb b name f pre post n v q w' where
  named : ∃ w₁, (Operation.nameOf q.value).action.apply w' = (.ok name, w₁)
  instructions : ∃ w₁, (Operation.instructions q).action.apply w' = (.ok [], w₁)
  users : ∃ w₁, (Operation.users q.value).action.apply w' = (.ok [], w₁)
  successors : ∃ w₁, (Operation.successors q).action.apply w' = (.ok [], w₁)
  predecessors : ∃ w₁, (Operation.predecessors q).action.apply w' = (.ok [], w₁)
  /-- Both blocks belong to the function. -/
  parent : ∀ c ∈ [n, b],
    ∃ w₁, (Operation.ask q.value (.blockParent c)).action.apply w' = (.ok f, w₁)
  /-- The new block stands right in front of the other one. Only while an operation under way is to
  destroy that one in its very next step may its wrapper be another. -/
  next : ∃ x w₁, (Operation.next q).action.apply w' = (.ok (some x), w₁) ∧
    w₁.PresentsBlock m.log bb.value.context b x ∧
    (¬ m.Deleting bb.value.context.library b → x = bb)
  previous : ∃ w₁, (Operation.previous bb).action.apply w' = (.ok (some q), w₁)
  /-- Whichever block stood in front of the other one stands in front of the new one. -/
  former : ∀ (pb : BasicBlock) (p : BlockRef) (ps : List BlockRef), pre = ps ++ [p] →
    .value pb.value ∈ m.world.held → pb.value.context = bb.value.context →
    m.world.Denotes pb.value p →
      ∃ w₁, (Operation.next pb).action.apply w' = (.ok (some q), w₁)

/-- What comes of a request for a new block in front of a block `b`, whether `b` is in a layout or
in none. -/
structure InsertsBefore (m : Machine Recorders) (bb : BasicBlock) (b : BlockRef) (name : String) :
    Prop where
  inserted : ∀ f pre post,
    (m.world.graph bb.value.context.library).layout f = pre ++ b :: post →
      ∃ n v q w', Inserted m bb b name f pre post n v q w'
  refused : (∀ f, b ∉ (m.world.graph bb.value.context.library).layout f) →
    ∃ w', (Operation.insertBefore bb name).action.apply m.world = (.ok none, w') ∧
      (∀ lib, w'.graph lib = m.world.graph lib) ∧ m.world.Untouched w'

/-- In every reachable state, a request for a new block in front of another one is exact, or has no
effect. -/
theorem Reachable.insertsBefore {u : Shapes} (h : Reachable u) {bb : BasicBlock} {b : BlockRef}
    (hbb : .value bb.value ∈ u.world.held) (hb : u.world.Denotes bb.value b) (name : String) :
    InsertsBefore u.machine bb b name where
  refused hout := h.ready.not_inserted hbb hb hout name
  inserted f pre post hl := by
    have hp := h.placed bb.value.context.library
    obtain ⟨n, v, q, w', hi, h'⟩ := h.ready.inserted hbb hb hl name
    have hq := hi.presents.canonical.1
    have hf (c : BlockRef) (hc : c ∈ [n, b]) :
        ∃ e, (w'.graph q.value.context.library).blocks.get? c = some e ∧ e.function = f := by
      rcases List.mem_cons.mp hc with rfl | hc
      · exact ⟨_, hi.get?_block, rfl⟩
      · obtain rfl := List.mem_singleton.mp hc
        obtain ⟨e, he, hef⟩ := hp.layout_home f c (hl ▸ by simp)
        exact ⟨e, hi.presents.context ▸ hi.get?_old hp he, hef⟩
    refine ⟨n, v, q, w', { hi with
      named := ?_, instructions := ?_, users := ?_, successors := ?_, predecessors := ?_,
      parent := fun c hc => ?_, next := ?_, previous := ?_, former := ?_ }⟩
    · have hname : ((w'.graph q.value.context.library).perform (.valueName q.value.handle)).1 =
          .ok name := congrArg Except.ok (Graph.ofValue_of_get? hi.get?_value "" _)
      exact h'.runs (Operation.leads_ask q.value rfl hname)
    · exact h'.runs ((Operation.leads_instructions (hi.opens h') hq).imp
        fun xs hxs => List.forall₂_nil_left_iff.mp hxs)
    · exact h'.runs (Operation.leads_users_unused hi.get?_value rfl)
    · exact h'.runs (Operation.leads_successors_empty (hi.opens h') hq rfl)
    · exact h'.runs (Operation.leads_predecessors_unused hi.get?_value rfl)
    · obtain ⟨e, he, hef⟩ := hf c hc
      have hparent : ((w'.graph q.value.context.library).perform (.blockParent c)).1 = .ok f := by
        rw [← hef]
        exact congrArg Except.ok (Graph.ofBlock_of_get? he .null (·.function))
      exact h'.runs (Operation.leads_ask q.value rfl hparent)
    · obtain ⟨x, w₁, hx, hpresents, hself⟩ := hi.next h'
      obtain ⟨e, he, hv⟩ := hi.denotes_old hp rfl hb
      refine ⟨x, w₁, hx, hpresents, fun hlive => hself bb ?_ ?_⟩
      · exact hi.joined.held ▸ List.mem_cons_of_mem _ hbb
      · exact ⟨e, he, rfl, hv.symm, h.unforgotten hbb hb hlive⟩
    · exact hi.neighbour h' hp .behind hbb rfl hb rfl
    · rintro pb p ps rfl hpb hcx hpd
      exact hi.neighbour h' hp .before hpb hcx hpd (List.append_cons ps p _).symm

theorem insertsBefore_threeBlocks :
    let address (n : Nat) : Nat := Memory.Graph.baseAddress + n * Memory.Graph.stride
    let cx : Context := ⟨0, ⟨0⟩, ⟨address 8⟩, true, {}⟩
    let third : BasicBlock := ⟨⟨3, cx, ⟨address 6⟩, .ofClass .basicBlock⟩, rfl⟩
    let cx' : Context := ⟨0, ⟨0⟩, ⟨address 10⟩, true, {}⟩
    let lost : BasicBlock := ⟨⟨2, cx', ⟨address 4⟩, .ofClass .basicBlock⟩, rfl⟩
    (∃ n v q w', Inserted (threeBlocks.foldl next {}).machine third ⟨address 7⟩ "fourth" ⟨address 1⟩
      [⟨address 3⟩, ⟨address 5⟩] [] n v q w') ∧
      InsertsBefore (rearranged.foldl next {}).machine lost ⟨address 5⟩ "fourth" :=
  ⟨((Reachable.start.moves (by decide +kernel)).insertsBefore (by decide +kernel)
      ⟨⟨⟨Memory.Graph.baseAddress + 6 * Memory.Graph.stride⟩,
        ⟨Memory.Graph.baseAddress + 1 * Memory.Graph.stride⟩, []⟩, by decide +kernel, rfl⟩
      "fourth").inserted _ _ _ (by decide +kernel),
    (Reachable.start.moves (by decide +kernel)).insertsBefore (by decide +kernel)
      ⟨⟨⟨Memory.Graph.baseAddress + 4 * Memory.Graph.stride⟩,
        ⟨Memory.Graph.baseAddress + 1 * Memory.Graph.stride⟩, []⟩, by decide +kernel, rfl⟩
      "fourth"⟩

end Shapes

end CanonIR
