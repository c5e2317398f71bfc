import CanonIR.Proofs.Deletion.Exact
import CanonIR.Proofs.Memory.Layout
import CanonIR.Proofs.Walks.Asking

/-!
Moves of blocks through their wrappers. A move asks for two block shapes and makes one call, so all
that changes is one layout (`Relaid`), and the new layout is known (`Ready.move`). From that it
follows what moves do one after the other (`Shapes.Reachable.relocated`).
-/

namespace CanonIR

open Memory (Graph Side)

namespace Memory.Side

/-- The move of a block to a side of another one. -/
def move : Side → BasicBlock → BasicBlock → Operation Unit
  | before => Operation.moveBefore
  | behind => Operation.moveAfter

/-- What a move asks of the library. -/
def order (v : ValueWrapper) (b p : BlockRef) : Side → Operation Unit
  | before => Operation.ask v (.moveBlockBefore b p)
  | behind => Operation.ask v (.moveBlockAfter b p)

theorem move_eq (side : Side) (bb pos : BasicBlock) :
    side.move bb pos = Operation.blockRef bb >>= fun b =>
      Operation.blockRef pos >>= fun p => side.order bb.value b p := by
  cases side <;> rfl

/-- The way from a block at a side of another one to that other one. -/
def step : Side → BasicBlock → Operation (Option BasicBlock)
  | before => Operation.next
  | behind => Operation.previous

end Memory.Side

/-! ## What changes -/

/-- The same objects are held and stand in the same places, and what is known of block shapes stays
known. -/
structure World.Untouched {σ : Type} (w w' : World σ) : Prop where
  occupant : ∀ p, w'.occupant? p = w.occupant? p
  held : w'.held = w.held
  nextId : w'.nextId = w.nextId
  registry : w'.registry = w.registry
  blockRefs : ∀ i b, w.blockRefs.get? i = some b → w'.blockRefs.get? i = some b

/-- In one library, only the layout of one function has changed; nothing has in others. -/
structure World.Relaid (lib : LibraryId) (f : ValueRef) (w w' : World Recorders) : Prop where
  graph : w'.graph lib = { w.graph lib with layouts := (w'.graph lib).layouts }
  layouts : ∀ f', f' ≠ f → (w'.graph lib).layout f' = (w.graph lib).layout f'
  libraries : ∀ lib', lib' ≠ lib → w'.native.recorder lib' = w.native.recorder lib'
  bindings : w.Untouched w'

namespace World

variable {σ : Type} {lib : LibraryId} {f : ValueRef} {w w' w'' : World Recorders}

theorem Untouched.trans {w w' w'' : World σ} (h : w.Untouched w') (h' : w'.Untouched w'') :
    w.Untouched w'' where
  occupant p := (h'.occupant p).trans (h.occupant p)
  held := h'.held.trans h.held
  nextId := h'.nextId.trans h.nextId
  registry := h'.registry.trans h.registry
  blockRefs i b hb := h'.blockRefs i b (h.blockRefs i b hb)

theorem Relaid.trans (h : w.Relaid lib f w') (h' : w'.Relaid lib f w'') : w.Relaid lib f w'' where
  graph := by rw [h'.graph, h.graph]
  layouts f' hf := (h'.layouts f' hf).trans (h.layouts f' hf)
  libraries lib' hl := (h'.libraries lib' hl).trans (h.libraries lib' hl)
  bindings := h.bindings.trans h'.bindings

/-- Blocks are denoted by the same wrappers. -/
theorem Relaid.denotes (h : w.Relaid lib f w') {v : ValueWrapper} {b : BlockRef}
    (hv : v.context.library = lib) (hd : w.Denotes v b) : w'.Denotes v b := by
  obtain ⟨e, he, hval⟩ := hd
  refine ⟨e, ?_, hval⟩
  subst hv
  rw [h.graph]
  exact he

end World

/-- Questions alone touch nothing but the notes of them. -/
theorem Footprint.relaid {cx : Context} {calls : List Call} {w w' : World Recorders}
    (h : Footprint cx calls [] w w') (f : ValueRef) : w.Relaid cx.library f w' where
  graph := by rw [h.graph]
  layouts f' _ := by rw [h.graph]
  libraries := h.asked.others
  bindings :=
    { occupant := fun p => (h.forgot.occupant? p).trans (if_neg (by simp))
      held := h.forgot.held
      nextId := h.forgot.nextId
      registry := h.forgot.registry
      blockRefs := h.forgot.blockRefs }

namespace Ready

variable {log : List Forgetting} {w : World Recorders} {bb pos : BasicBlock} {b p : BlockRef}
variable {f : ValueRef}

/-- A call, which changes the graph of its library at most, even where the library gives up in the
middle of it. -/
theorem tell (h : Ready log w) (v : ValueWrapper) {c : Call} {x : Except NativeTrap c.Answer}
    {g : Graph} (hc : (w.graph v.context.library).perform c = (x, g)) :
    ∃ w', (Operation.ask v c).action.apply w = (x.mapError fun t => .trap t.message, w') ∧
      w.Untouched w' ∧ w'.graph v.context.library = g ∧
      (∀ lib', lib' ≠ v.context.library → w'.native.recorder lib' = w.native.recorder lib') ∧
      Ready log w' := by
  let r := w.native.recorder v.context.library
  have hanswer : (r.perform c).1 = x := by
    cases x with
    | ok a =>
      rw [Recorder.perform_of_unforced (h.shaped.unforced v.context.library) hc]
    | error t =>
      have hc' : r.graph.perform c = (.error t, g) := hc
      rw [Recorder.perform, hc']
  have hgraph : (r.perform c).2.graph = g :=
    (r.graph_perform c).trans (congrArg Prod.snd hc)
  have hx : (Operation.ask v c).action.apply w = (x.mapError fun t => .trap t.message,
      { w with native := w.native.insert v.context.library (r.perform c).2 }) := by
    rw [← hanswer]
    rfl
  refine ⟨_, hx, ⟨fun _ => rfl, rfl, rfl, rfl, fun _ _ => id⟩, ?_, fun lib' hne => ?_,
    (h.perform (a := .call v.context.library c) trivial trivial rfl hx).1⟩
  · rw [World.graph, Recorders.recorder_insert, if_pos rfl, hgraph]
  · exact (Recorders.recorder_insert _ _ _ _).trans (if_neg hne)

/-- A call that changes one layout. -/
theorem relay (h : Ready log w) (v : ValueWrapper) {c : Call} {x : Except NativeTrap c.Answer}
    {layouts : Table ValueRef (List BlockRef)}
    (hc : (w.graph v.context.library).perform c = (x, { w.graph v.context.library with layouts }))
    (hl : ∀ f', f' ≠ f → Graph.layout { w.graph v.context.library with layouts } f' =
      (w.graph v.context.library).layout f') :
    ∃ w', (Operation.ask v c).action.apply w = (x.mapError fun t => .trap t.message, w') ∧
      w.Relaid v.context.library f w' ∧
      w'.graph v.context.library = { w.graph v.context.library with layouts } ∧ Ready log w' := by
  obtain ⟨w', hx, hu, hg, hlibs, h'⟩ := h.tell v hc
  refine ⟨w', hx, ⟨?_, fun f' hf => ?_, hlibs, hu⟩, hg, h'⟩
  · rw [hg]
  · rw [hg]
    exact hl f' hf

/-- A request for a move does what the library makes of it. -/
theorem request (h : Ready log w) (hbb : .value bb.value ∈ w.held)
    (hpos : .value pos.value ∈ w.held)
    (hlib : pos.value.context.library = bb.value.context.library) (hb : w.Denotes bb.value b)
    (hp : w.Denotes pos.value p) (side : Side) {x : Except NativeTrap Unit}
    {layouts : Table ValueRef (List BlockRef)}
    (hm : (w.graph bb.value.context.library).moveBlock b p side.offset =
      (x, { w.graph bb.value.context.library with layouts }))
    (hl : ∀ f', f' ≠ f → Graph.layout { w.graph bb.value.context.library with layouts } f' =
      (w.graph bb.value.context.library).layout f') :
    ∃ w', (side.move bb pos).action.apply w = (x.mapError fun t => .trap t.message, w') ∧
      w.Relaid bb.value.context.library f w' ∧
      w'.graph bb.value.context.library = { w.graph bb.value.context.library with layouts } ∧
      Ready log w' := by
  obtain ⟨w₁, hw₁, hf₁⟩ := h.shaped.blockRef_footprint hbb hb
  have h₁ : Ready log w₁ := (h.perform (a := .blockRef bb) hbb trivial rfl hw₁).1
  have hr₁ := hf₁.relaid f
  have hpos₁ : .value pos.value ∈ w₁.held := hr₁.bindings.held ▸ hpos
  obtain ⟨w₂, hw₂, hf₂⟩ := h₁.shaped.blockRef_footprint hpos₁ (hr₁.denotes hlib hp)
  have h₂ : Ready log w₂ := (h₁.perform (a := .blockRef pos) hpos₁ trivial rfl hw₂).1
  have hr₂ : w₁.Relaid bb.value.context.library f w₂ := hlib ▸ hf₂.relaid f
  have hgraph : w₂.graph bb.value.context.library = w.graph bb.value.context.library :=
    (hlib ▸ hf₂.graph).trans hf₁.graph
  rw [← hgraph] at hm hl
  obtain ⟨w', hw', hr', hg', h'⟩ : ∃ w', (side.order bb.value b p).action.apply w₂ =
        (x.mapError fun t => .trap t.message, w') ∧ w₂.Relaid bb.value.context.library f w' ∧
      w'.graph bb.value.context.library = { w₂.graph bb.value.context.library with layouts } ∧
      Ready log w' := by
    cases side with
    | before => exact h₂.relay bb.value (c := .moveBlockBefore b p) hm hl
    | behind => exact h₂.relay bb.value (c := .moveBlockAfter b p) hm hl
  refine ⟨w', ?_, (hr₁.trans hr₂).trans hr', hgraph ▸ hg', h'⟩
  rw [Side.move_eq, Operation.apply_bind_of_ok hw₁, Operation.apply_bind_of_ok hw₂, hw']

/-- A block in a layout is put at a side of another block there, in one go. -/
theorem move (h : Ready log w) (hbb : .value bb.value ∈ w.held) (hpos : .value pos.value ∈ w.held)
    (hlib : pos.value.context.library = bb.value.context.library) (hb : w.Denotes bb.value b)
    (hp : w.Denotes pos.value p)
    (hm : b ∈ (w.graph bb.value.context.library).layout f) (side : Side)
    {pre post : List BlockRef}
    (hrest : ((w.graph bb.value.context.library).layout f).filter (· != b) = pre ++ p :: post) :
    ∃ w', (side.move bb pos).action.apply w = (.ok (), w') ∧
      w.Relaid bb.value.context.library f w' ∧
      (w'.graph bb.value.context.library).layout f = side.place pre b p post ∧ Ready log w' := by
  obtain ⟨layouts, hmove, hlayout⟩ := (h.placed _).moveBlock_place hm side hrest
  obtain ⟨w', hw', hr', hg', h'⟩ := h.request hbb hpos hlib hb hp side hmove
    fun f' hne => (hlayout f').trans (if_neg hne)
  exact ⟨w', hw', hr', hg' ▸ (hlayout f).trans (if_pos rfl), h'⟩

end Ready

/-- The neighbour of a block is wrapped in the context of the block, if there is one. -/
theorem Operation.leads_step {log : List Forgetting} {s : Recorders} {l : List Reference}
    {bb : BasicBlock} {b : BlockRef} {e : Memory.BlockEntry} (side : Side)
    (hbb : .value bb.value ∈ l)
    (hb : (s.recorder bb.value.context.library).graph.blocks.get? b = some e)
    (hv : e.value = bb.value.handle) :
    Leads (Asking log s) l (side.step bb) l
      (Option.Rel (fun e' q => q.value.Shows log bb.value.context e'.value)
        ((s.recorder bb.value.context.library).graph.blocks.get?
          (side.neighbour (s.recorder bb.value.context.library).graph b))) := by
  have hgate (p : BlockRef) : Leads (Asking log s) l (internBlock bb.value.context p) l
      (Option.Rel (fun e' q => q.value.Shows log bb.value.context e'.value)
        ((s.recorder bb.value.context.library).graph.blocks.get? p)) := by
    cases hp : (s.recorder bb.value.context.library).graph.blocks.get? p with
    | none =>
      refine (leads_internBlock_none bb.value.context hp).imp fun x hx => ?_
      obtain rfl : x = none := hx
      exact .none
    | some e' =>
      refine (leads_internBlock ⟨_, hbb, rfl⟩ hp).imp fun x hx => ?_
      obtain ⟨q, rfl, hq⟩ := hx
      exact .some hq
  cases side with
  | before =>
    refine (leads_blockRef hbb hb hv).bind fun b' hb' => ?_
    obtain rfl : b' = b := hb'
    refine (leads_ask bb.value (c := .nextBlock b') rfl rfl).bind fun p hp => ?_
    obtain rfl : p = _ := hp
    exact hgate _
  | behind =>
    refine (leads_blockRef hbb hb hv).bind fun b' hb' => ?_
    obtain rfl : b' = b := hb'
    refine (leads_ask bb.value (c := .previousBlock b') rfl rfl).bind fun p hp => ?_
    obtain rfl : p = _ := hp
    exact hgate _

/-- Where two blocks stand side by side, a step leads from the one to the canonical wrapper of the
other. -/
theorem Ready.step {log : List Forgetting} {w : World Recorders} (h : Ready log w)
    {bb pos : BasicBlock} {b p : BlockRef} {f : ValueRef} {side : Side} {pre post : List BlockRef}
    (hbb : .value bb.value ∈ w.held) (hlib : pos.value.context.library = bb.value.context.library)
    (hb : w.Denotes bb.value b) (hp : w.Denotes pos.value p)
    (hl : (w.graph bb.value.context.library).layout f = side.place pre b p post) :
    ∃ q w', (side.step bb).action.apply w = (.ok (some q), w') ∧
      w'.Presents log bb.value.context pos.value.handle q.value := by
  obtain ⟨e, he, hv⟩ := hb
  obtain ⟨e', he', hv'⟩ := hp
  rw [hlib] at he'
  have hn := (h.placed bb.value.context.library).neighbour_of_place hl
  obtain ⟨x, w', hx, hrel, hw'⟩ := Operation.leads_step side hbb he hv w h.asking
  have hget : (w.graph bb.value.context.library).blocks.get?
      (side.neighbour (w.graph bb.value.context.library) b) = some e' := by rw [hn, he']
  rw [World.graph] at hget
  rw [hget] at hrel
  cases hrel with | some hq =>
  exact ⟨_, w', hx, hv' ▸ hw'.presents hq List.mem_cons_self⟩

namespace Shapes

/-- A block `b` was moved to a side of another block `p` in the layout of their function, in one
go. -/
structure Relocated (log : List Forgetting) (lib : LibraryId) (side : Side) (bb pos : BasicBlock)
    (b p : BlockRef) (f : ValueRef) (w w' : World Recorders) : Prop where
  run : (side.move bb pos).action.apply w = (.ok (), w')
  /-- Nothing but the layout of the function has changed. -/
  relaid : w.Relaid lib f w'
  /-- The layout is the old one with the block taken out and put back at the side of the other. -/
  layout : ∃ pre post, ((w.graph lib).layout f).filter (· != b) = pre ++ p :: post ∧
    (w'.graph lib).layout f = side.place pre b p post
  perm : ((w'.graph lib).layout f).Perm ((w.graph lib).layout f)
  /-- The other blocks keep their order. -/
  order : ((w'.graph lib).layout f).filter (· != b) = ((w.graph lib).layout f).filter (· != b)
  /-- The neighbours of the block stand side by side, unless it has come back between them. -/
  closes : ∀ xs x y ys, (w.graph lib).layout f = xs ++ x :: b :: y :: ys →
    (w'.graph lib).layout f = (w.graph lib).layout f ∨ [x, y] <:+: (w'.graph lib).layout f
  /-- One step leads from the block to the other, and one step leads back. -/
  onward : ∃ q w'', (side.step bb).action.apply w' = (.ok (some q), w'') ∧
    w''.Presents log bb.value.context pos.value.handle q.value
  back : ∃ q w'', (side.opposite.step pos).action.apply w' = (.ok (some q), w'') ∧
    w''.Presents log pos.value.context bb.value.handle q.value
  /-- The same move once more changes nothing. -/
  repeated : ∃ w'', (side.move bb pos).action.apply w' = (.ok (), w'') ∧ w'.Relaid lib f w'' ∧
    (w''.graph lib).layout f = (w'.graph lib).layout f
  /-- A move to where the block stood beside an old neighbour takes everything back. -/
  restored : ∀ (old : Side) (nb : BasicBlock) (n : BlockRef) (xs ys : List BlockRef),
    .value nb.value ∈ w.held → nb.value.context.library = lib → w.Denotes nb.value n →
    (w.graph lib).layout f = old.place xs b n ys →
      ∃ w'', (old.move bb nb).action.apply w' = (.ok (), w'') ∧ w.Relaid lib f w'' ∧
        (w''.graph lib).layout f = (w.graph lib).layout f

/-- In every reachable state, a block is moved to any side of any other block of its layout, exactly
there, and can be moved back. -/
theorem Reachable.relocated {u : Shapes} (h : Reachable u) {lib : LibraryId} {bb pos : BasicBlock}
    {b p : BlockRef} {f : ValueRef} (side : Side) (hbb : .value bb.value ∈ u.world.held)
    (hpos : .value pos.value ∈ u.world.held) (hbl : bb.value.context.library = lib)
    (hpl : pos.value.context.library = lib) (hb : u.world.Denotes bb.value b)
    (hp : u.world.Denotes pos.value p) (hne : b ≠ p) (hbf : b ∈ (u.world.graph lib).layout f)
    (hpf : p ∈ (u.world.graph lib).layout f) :
    ∃ w', Relocated u.machine.log lib side bb pos b p f u.world w' := by
  subst hbl
  have hnodup := (h.placed bb.value.context.library).layout_nodup f
  obtain ⟨pre, post, hrest⟩ : ∃ pre post,
      ((u.world.graph bb.value.context.library).layout f).filter (· != b) = pre ++ p :: post :=
    List.append_of_mem (List.mem_filter.mpr ⟨hpf, by simpa using hne.symm⟩)
  obtain ⟨w', hrun, hrelaid, hlayout, hw'⟩ := h.ready.move hbb hpos hpl hb hp hbf side hrest
  -- The world after the move is as good as the one before.
  have hbb' : .value bb.value ∈ w'.held := hrelaid.bindings.held ▸ hbb
  have hpos' : .value pos.value ∈ w'.held := hrelaid.bindings.held ▸ hpos
  have hb' := hrelaid.denotes rfl hb
  have hp' := hrelaid.denotes hpl hp
  have hperm : ((w'.graph bb.value.context.library).layout f).Perm
      ((u.world.graph bb.value.context.library).layout f) := by
    rw [hlayout]
    exact Side.place_perm_of_filter hnodup hbf hrest
  have hbf' := hperm.symm.subset hbf
  have hrest' : ((w'.graph bb.value.context.library).layout f).filter (· != b) =
      pre ++ p :: post := by
    rw [hlayout]
    exact Side.filter_place (hlayout ▸ hperm.nodup_iff.mpr hnodup)
  refine ⟨w', hrun, hrelaid, ⟨pre, post, hrest, hlayout⟩, hperm, hrest'.trans hrest.symm, ?_, ?_, ?_,
    ?_, ?_⟩
  · intro xs x y ys hsplit
    have hclosed : (xs ++ [x]) ++ y :: ys = pre ++ p :: post := by
      have hplace : (u.world.graph bb.value.context.library).layout f =
          Side.before.place (xs ++ [x]) b y ys := hsplit.trans (List.append_cons xs x _)
      rw [← hrest, hplace]
      exact (Side.filter_place (hplace ▸ hnodup)).symm
    rw [hlayout]
    exact Side.place_closes hsplit ((List.append_cons xs x _).trans hclosed)
  · exact hw'.step hbb' hpl hb' hp' hlayout
  · exact hw'.step hpos' hpl.symm hp' hb'
      (hpl ▸ hlayout.trans (side.place_opposite pre b p post).symm)
  · obtain ⟨w'', hrun', hrelaid', hlayout', -⟩ := hw'.move hbb' hpos' hpl hb' hp' hbf' side hrest'
    exact ⟨w'', hrun', hrelaid', hlayout'.trans hlayout.symm⟩
  · intro old nb n xs ys hnb hnl hn hsplit
    have hback : ((w'.graph bb.value.context.library).layout f).filter (· != b) = xs ++ n :: ys := by
      rw [hrest', ← hrest, hsplit]
      exact Side.filter_place (hsplit ▸ hnodup)
    obtain ⟨w'', hrun', hrelaid', hlayout', -⟩ := hw'.move hbb' (hrelaid.bindings.held ▸ hnb) hnl hb'
      (hrelaid.denotes hnl hn) hbf' old hback
    exact ⟨w'', hrun', hrelaid.trans hrelaid', hlayout'.trans hsplit.symm⟩

/-- A function with three blocks, which are all wrapped. -/
def threeBlocks : List MemoryMove :=
  let address (n : Nat) : Nat := Memory.Graph.baseAddress + n * Memory.Graph.stride
  let cx : Context := ⟨0, ⟨0⟩, ⟨address 8⟩, true, {}⟩
  [.build ⟨0⟩ .function, .build ⟨0⟩ (.appendBlock ⟨address 1⟩ "first"),
    .build ⟨0⟩ (.appendBlock ⟨address 1⟩ "second"),
    .build ⟨0⟩ (.appendBlock ⟨address 1⟩ "third")] ++
    MemoryMove.serve (.createContext ⟨0⟩ {}) ++
    MemoryMove.serve (.internBlock (.context cx) ⟨address 3⟩) ++
    MemoryMove.serve (.internBlock (.context cx) ⟨address 5⟩) ++
    MemoryMove.serve (.internValue (.context cx) ⟨address 6⟩)

theorem relocated_threeBlocks :
    let address (n : Nat) : Nat := Memory.Graph.baseAddress + n * Memory.Graph.stride
    let cx : Context := ⟨0, ⟨0⟩, ⟨address 8⟩, true, {}⟩
    let first : BasicBlock := ⟨⟨1, cx, ⟨address 2⟩, .ofClass .basicBlock⟩, by decide⟩
    let third : BasicBlock := ⟨⟨3, cx, ⟨address 6⟩, .ofClass .basicBlock⟩, by decide⟩
    let u := threeBlocks.foldl next {}
    (u.world.graph ⟨0⟩).layout ⟨address 1⟩ = [⟨address 3⟩, ⟨address 5⟩, ⟨address 7⟩] ∧
      ∃ w', Relocated u.machine.log ⟨0⟩ .before third first ⟨address 7⟩ ⟨address 3⟩ ⟨address 1⟩
        u.world w' :=
  ⟨by decide +kernel, (Reachable.start.moves (by decide +kernel)).relocated .before
    (by decide +kernel) (by decide +kernel) rfl rfl
    ⟨⟨⟨Memory.Graph.baseAddress + 6 * Memory.Graph.stride⟩,
      ⟨Memory.Graph.baseAddress + 1 * Memory.Graph.stride⟩, []⟩, by decide +kernel, rfl⟩
    ⟨⟨⟨Memory.Graph.baseAddress + 2 * Memory.Graph.stride⟩,
      ⟨Memory.Graph.baseAddress + 1 * Memory.Graph.stride⟩, []⟩, by decide +kernel, rfl⟩
    (by decide) (by decide +kernel) (by decide +kernel)⟩

end Shapes

end CanonIR
