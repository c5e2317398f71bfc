import CanonIR.Proofs.Deletion.Underway
import CanonIR.Proofs.Walks.Moving
import CanonIR.Proofs.Walks.Users

/-!
Walks along layouts. A step from a wrapped block leads to the canonical wrapper of its neighbour, and
to nothing where there is none. So of two blocks the one is next just if the other is previous, and
steps from an end of a layout pass the whole of it and stop (`Shapes.Reachable.chained`).
-/

namespace CanonIR

open Memory (Graph Side)

/-- The canonical wrapper of a living block in a context. -/
def World.PresentsBlock (log : List Forgetting) (w : World Recorders) (cx : Context) (b : BlockRef)
    (bb : BasicBlock) : Prop :=
  ∃ e, (w.graph cx.library).blocks.get? b = some e ∧ w.Presents log cx e.value bb.value

/-- One step after the other from a wrapper of a block, until there is no further one. Nothing bounds
the number of steps; that there are the wrappers `qs` and no more says that the steps end. -/
inductive Memory.Side.Walks (side : Side) :
    World Recorders → BasicBlock → List BasicBlock → World Recorders → Prop where
  | stop {w w' : World Recorders} {bb : BasicBlock}
    (h : (side.step bb).action.apply w = (.ok none, w')) : side.Walks w bb [] w'
  | go {w w' w'' : World Recorders} {bb q : BasicBlock} {qs : List BasicBlock}
    (h : (side.step bb).action.apply w = (.ok (some q), w')) (hq : side.Walks w' q qs w'') :
    side.Walks w bb (q :: qs) w''

section Steps

variable {log : List Forgetting} {s : Recorders} {l : List Reference} {cx : Context}
variable {bb : BasicBlock} {b : BlockRef}

open Carries (references)

theorem Asking.presentsBlock {w : World Recorders} (h : Asking log s l w) (hb : bb.Shows log s cx b)
    (hm : .value bb.value ∈ l) : w.PresentsBlock log cx b bb := by
  obtain ⟨e, he, hbb⟩ := hb
  exact ⟨e, by rw [h.graph]; exact he, h.presents hbb hm⟩

/-- Held wrappers with one identity are wrappers of one block. -/
theorem Asking.block_eq_of_id_eq {w : World Recorders} (h : Asking log s l w)
    (hg : (s.recorder cx.library).graph.WellFormed) {q q' : BasicBlock} {b b' : BlockRef}
    (hb : q.Shows log s cx b) (hb' : q'.Shows log s cx b') (hm : .value q.value ∈ l)
    (hm' : .value q'.value ∈ l) (hid : q.value.id = q'.value.id) : b = b' := by
  obtain ⟨e, he, hq⟩ := hb
  obtain ⟨e', he', hq'⟩ := hb'
  exact hg.block_unique b e b' e' he he' ((h.id_eq_iff hq hq' hm hm').mp hid)

/-- A step passes on to the next block of a layout, if there is one. -/
theorem Operation.leads_step_along (side : Side) {f : ValueRef} {pre post : List BlockRef}
    (hplaced : (s.recorder cx.library).graph.Placed)
    (hl : side.along ((s.recorder cx.library).graph.layout f) = pre ++ b :: post)
    (hb : bb.Shows log s cx b) (hbb : .value bb.value ∈ l) :
    Leads (Asking log s) l (side.step bb) l (Option.Rel (BasicBlock.Shows log s cx) post.head?) := by
  obtain ⟨e, he, hshows⟩ := hb
  obtain rfl := hshows.context
  refine (leads_step side hbb he hshows.handle.symm).imp fun x hx => ?_
  rw [hplaced.neighbour_of_along hl] at hx
  cases post with
  | nil =>
    rw [List.headD_nil, hplaced.get?_null] at hx
    cases hx
    exact .none
  | cons p post =>
    obtain ⟨e', he', -⟩ := hplaced.layout_home f p ((side.along_perm _).subset (hl ▸ by simp))
    rw [List.headD_cons, he'] at hx
    cases hx with | some hq =>
    exact .some ⟨e', he', hq⟩

/-- Steps pass what is left of a layout, and stop. -/
theorem exists_walks (side : Side) {w : World Recorders} (h : Asking log s l w) {f : ValueRef}
    {pre post : List BlockRef} (hplaced : (s.recorder cx.library).graph.Placed)
    (hl : side.along ((s.recorder cx.library).graph.layout f) = pre ++ b :: post)
    (hb : bb.Shows log s cx b) (hbb : .value bb.value ∈ l) :
    ∃ qs w', side.Walks w bb qs w' ∧ List.Forall₂ (BasicBlock.Shows log s cx) post qs ∧
      Asking log s (references qs ++ l) w' := by
  induction post generalizing w pre b bb l with
  | nil =>
    obtain ⟨x, w', hx, hnone, hw'⟩ := Operation.leads_step_along side hplaced hl hb hbb w h
    cases hnone
    exact ⟨[], w', .stop hx, .nil, hw'⟩
  | cons p post ih =>
    obtain ⟨x, w', hx, hsome, hw'⟩ := Operation.leads_step_along side hplaced hl hb hbb w h
    cases hsome with | some hq =>
    rename_i q
    obtain ⟨qs, w'', hqs, hpost, hw''⟩ :=
      ih hw' (hl.trans (List.append_cons pre b (p :: post))) hq List.mem_cons_self
    exact ⟨q :: qs, w'', .go hx hqs, .cons hq hpost,
      (Asking.tenable log s).perm hw'' List.perm_middle⟩

end Steps

namespace Ready

variable {log : List Forgetting} {w : World Recorders} {bb pos : BasicBlock} {b p : BlockRef}

/-- A step leads from a block to a wrapper of another just if that is its neighbour. -/
theorem step_iff (h : Ready log w) (side : Side) (hbb : .value bb.value ∈ w.held)
    (hpos : .value pos.value ∈ w.held) (hcx : pos.value.context = bb.value.context)
    (hb : w.Denotes bb.value b) (hp : w.Denotes pos.value p)
    (hnew : ¬ (Reference.value pos.value).Forgotten log) :
    (∃ w', (side.step bb).action.apply w = (.ok (some pos), w')) ↔
      side.neighbour (w.graph bb.value.context.library) b = p := by
  obtain ⟨e, he, hv⟩ := hb
  obtain ⟨e', he', hv'⟩ := hp
  rw [hcx] at he'
  obtain ⟨x, w', hx, hrel, hw'⟩ := Operation.leads_step side hbb he hv w h.asking
  change Option.Rel _ ((w.graph _).blocks.get? (side.neighbour (w.graph _) b)) x at hrel
  constructor
  · rintro ⟨w'', hpos'⟩
    obtain rfl : x = some pos := Except.ok.inj (congrArg Prod.fst (hx.symm.trans hpos'))
    generalize hn : side.neighbour (w.graph _) b = n at hrel ⊢
    generalize hget : (w.graph _).blocks.get? n = o at hrel
    cases hrel with | some hq =>
    exact (h.shaped.graph _).block_unique n _ p e' hget he' (hq.handle.symm.trans hv'.symm)
  · intro hn
    rw [hn, he'] at hrel
    cases hrel with | some hq =>
    rename_i q
    obtain rfl : q = pos := Viewed.eq_of_value (hw'.eq_of_shows hq ⟨hcx, hv'.symm, hnew⟩
      List.mem_cons_self (List.mem_cons_of_mem _ hpos))
    exact ⟨w', hx⟩

end Ready

namespace Shapes

/-- The layouts of the functions are chains. -/
structure Chained (u : Shapes) : Prop where
  /-- Of two blocks with wrappers in one context, the one is next just if the other is previous. Only
  while an operation under way is to destroy one of them in its very next step may its wrapper be
  another one. -/
  converse : ∀ (bb pos : BasicBlock) (b p : BlockRef), .value bb.value ∈ u.world.held →
    .value pos.value ∈ u.world.held → pos.value.context = bb.value.context →
    u.world.Denotes bb.value b → u.world.Denotes pos.value p →
    ¬ u.machine.Deleting bb.value.context.library b →
    ¬ u.machine.Deleting pos.value.context.library p →
      ((∃ w', (Operation.next bb).action.apply u.world = (.ok (some pos), w')) ↔
        ∃ w', (Operation.previous pos).action.apply u.world = (.ok (some bb), w'))
  /-- A block in no layout has neither neighbour. -/
  alone : ∀ (bb : BasicBlock) (b : BlockRef), .value bb.value ∈ u.world.held →
    u.world.Denotes bb.value b →
    (∀ f, b ∉ (u.world.graph bb.value.context.library).layout f) →
      (∃ w', (Operation.next bb).action.apply u.world = (.ok none, w')) ∧
        ∃ w', (Operation.previous bb).action.apply u.world = (.ok none, w')
  /-- Steps from the first block of a layout pass all its blocks in order, each once, by their
  canonical wrappers, and stop; steps from the last one pass them the other way around. -/
  walk : ∀ (cx : Context), (∃ r ∈ u.world.held, r.owner = cx) →
    ∀ (side : Side) (f : ValueRef) (b : BlockRef) (rest : List BlockRef),
    side.along ((u.world.graph cx.library).layout f) = b :: rest →
      ∃ bb w₁ qs w', (Action.internBlock cx b).apply u.world = (.ok (some bb), w₁) ∧
        side.Walks w₁ bb qs w' ∧
        List.Forall₂ (w'.PresentsBlock u.machine.log cx) (b :: rest) (bb :: qs) ∧
        ((bb :: qs).map (·.value.id)).Nodup

/-- In every reachable state the layouts of the functions are chains. -/
theorem Reachable.chained {u : Shapes} (h : Reachable u) : Chained u where
  converse bb pos b p hbb hpos hcx hb hp hlive hlive' := by
    have hnext := h.ready.step_iff .before hbb hpos hcx hb hp (h.unforgotten hpos hp hlive')
    have hprev := h.ready.step_iff .behind hpos hbb hcx.symm hp hb (h.unforgotten hbb hb hlive)
    have hnull {v : ValueWrapper} {b : BlockRef} (hd : u.world.Denotes v b) : b ≠ .null := by
      rintro rfl
      obtain ⟨e, he, -⟩ := hd
      exact nomatch he.symm.trans (h.placed v.context.library).get?_null
    have hopposite := (h.placed bb.value.context.library).neighbour_opposite_iff .before (hnull hb)
      (hnull hp)
    rw [hcx] at hprev
    exact hnext.trans (hopposite.symm.trans hprev.symm)
  alone bb b hbb hb hout := by
    obtain ⟨e, he, hv⟩ := hb
    have hnone (side : Side) : ∃ w', (side.step bb).action.apply u.world = (.ok none, w') := by
      obtain ⟨x, w', hx, hrel, -⟩ := Operation.leads_step side hbb he hv u.world h.ready.asking
      change Option.Rel _ ((u.world.graph _).blocks.get? (side.neighbour (u.world.graph _) b)) x
        at hrel
      rw [Graph.neighbour_of_not_mem hout, (h.placed _).get?_null] at hrel
      cases hrel
      exact ⟨w', hx⟩
    exact ⟨hnone .before, hnone .behind⟩
  walk cx hcx side f b rest hl := by
    have hplaced := h.placed cx.library
    obtain ⟨e, he, -⟩ := hplaced.layout_home f b
      ((side.along_perm _).subset (hl ▸ List.mem_cons_self))
    obtain ⟨_, w₁, hgate, ⟨bb, rfl, hbb⟩, hw₁⟩ :=
      Operation.leads_internBlock hcx he u.world h.ready.asking
    have hfirst : bb.Shows u.machine.log u.world.native cx b := ⟨e, he, hbb⟩
    have hall : side.along ((u.world.graph cx.library).layout f) = [] ++ b :: rest := hl
    obtain ⟨qs, w', hwalks, hrest, hw'⟩ :=
      exists_walks side hw₁ hplaced hall hfirst List.mem_cons_self
    have hshown := List.Forall₂.cons hfirst hrest
    rw [Carries.references_views] at hw'
    have hheld (q : BasicBlock) (hq : q ∈ bb :: qs) : .value q.value ∈
        qs.map (fun q => .value q.value) ++ (Carries.references (some bb) ++ u.world.held) := by
      rcases List.mem_cons.mp hq with rfl | hq
      · exact List.mem_append_right _ List.mem_cons_self
      · exact List.mem_append_left _ (List.mem_map.mpr ⟨q, hq, rfl⟩)
    refine ⟨bb, w₁, qs, w', hgate, hwalks, ?_, ?_⟩
    · exact forall₂_of_mem hshown fun b q hq hb => hw'.presentsBlock hb (hheld q hq)
    · refine nodup_map_of_forall₂ hshown ?_ _ fun b b' q hq q' hq' hb hb' => ?_
      · exact hl ▸ (side.along_perm _).nodup_iff.mpr (hplaced.layout_nodup f)
      · exact hw'.block_eq_of_id_eq (h.ready.shaped.graph _) hb hb' (hheld q hq) (hheld q' hq')

/-- A function with four blocks, all wrapped. The last one has been moved to the front, the second
one was lost in a move to itself, the third one was deleted, and the wrapper of the first one has
been given up. -/
def rearranged : List MemoryMove :=
  let address (n : Nat) : Nat := Memory.Graph.baseAddress + n * Memory.Graph.stride
  let cx : Context := ⟨0, ⟨0⟩, ⟨address 10⟩, true, {}⟩
  let block (i n : Nat) : BasicBlock := ⟨⟨i, cx, ⟨address n⟩, .ofClass .basicBlock⟩, rfl⟩
  [.build ⟨0⟩ .function, .build ⟨0⟩ (.appendBlock ⟨address 1⟩ "first"),
    .build ⟨0⟩ (.appendBlock ⟨address 1⟩ "lost"),
    .build ⟨0⟩ (.appendBlock ⟨address 1⟩ "doomed"),
    .build ⟨0⟩ (.appendBlock ⟨address 1⟩ "last")] ++
    MemoryMove.serve (.createContext ⟨0⟩ {}) ++
    MemoryMove.serve (.internBlock (.context cx) ⟨address 3⟩) ++
    MemoryMove.serve (.internBlock (.context cx) ⟨address 5⟩) ++
    MemoryMove.serve (.internBlock (.context cx) ⟨address 7⟩) ++
    MemoryMove.serve (.internBlock (.context cx) ⟨address 9⟩) ++
    [.ask (.moveBefore (block 4 8) (block 1 2))] ++ List.replicate 4 (.advance 0) ++
    [.ask (.moveBefore (block 2 4) (block 2 4))] ++ List.replicate 4 (.advance 0) ++
    [.ask (.delete (block 3 6))] ++ List.replicate 7 (.advance 0) ++
    [.release (.value (block 1 2).value)]

theorem chained_rearranged :
    let address (n : Nat) : Nat := Memory.Graph.baseAddress + n * Memory.Graph.stride
    let u := rearranged.foldl next {}
    (u.world.graph ⟨0⟩).layout ⟨address 1⟩ = [⟨address 9⟩, ⟨address 3⟩] ∧
      u.world.held.length = 4 ∧ Chained u :=
  ⟨by decide +kernel, by decide +kernel, (Reachable.start.moves (by decide +kernel)).chained⟩

end Shapes

end CanonIR
