import Mathlib.Data.List.Forall2
import CanonIR.Proofs.Flow.Walk
import CanonIR.Proofs.Memory.Uses
import CanonIR.Proofs.Walks.Asking

/-!
Walks along uses. The users of a value are gated one after the other, and the predecessors of a block
are read from its users, each of which is given up again once its block is known. Which wrappers live
while this goes on makes no difference: two wrappers of blocks are the same just when the blocks are,
and the kind of a user that stands in a block is up to date. So both walks yield what the graph says
(`Shapes.Linked.traced`).
-/

namespace CanonIR

open Memory (Graph ValueEntry)

/-! ## States -/

/-- Values that are built have no uses yet. -/
def MemoryMove.Unused : MemoryMove → Prop
  | build _ (.newValue entry) => entry.uses = []
  | _ => True

instance (x : MemoryMove) : Decidable x.Unused := by
  unfold MemoryMove.Unused
  split <;> infer_instance

namespace Recorder

/-- The uses of values are in order if they have been. -/
def Dates (r r' : Recorder) : Prop := r.graph.Dated → r'.graph.Dated

instance : IsPreorder Recorder Dates where
  refl _ := id
  trans _ _ _ h h' := h' ∘ h

theorem dates_perform (r : Recorder) (c : Call) : r.Dates (r.perform c).2 := by
  intro h
  rw [graph_perform]
  exact h.of_spares (r.graph.spares_perform c)

end Recorder

namespace Shapes

/-- A move that is enabled, and builds no value with uses. -/
def Links (u : Shapes) (x : MemoryMove) : Prop := u.Enabled x ∧ x.Unused

instance (u : Shapes) (x : MemoryMove) : Decidable (u.Links x) := by
  unfold Links
  infer_instance

/-- The states that can be reached from empty libraries where all uses are recorded one by one. -/
inductive Linked : Shapes → Prop where
  | start : Linked {}
  | move {u : Shapes} (h : Linked u) (x : MemoryMove) (hx : u.Links x) : Linked (u.next x)

variable {u : Shapes} {x : MemoryMove}

namespace Linked

theorem reachable (h : Linked u) : Reachable u := by
  induction h with
  | start => exact .start
  | move _ x hx ih => exact ih.move x hx.1

theorem moves (h : Linked u) {xs : List MemoryMove} (hx : Admits Links next u xs) :
    Linked (xs.foldl next u) :=
  hx.foldl (fun _ x hu hx => hu.move x hx) h

theorem dated (h : Linked u) (lib : LibraryId) : (u.world.graph lib).Dated := by
  induction h with
  | start => exact Graph.dated_empty
  | @move u h x hx ih =>
    have hdates := h.reachable.kept.each hx.1 (R := Recorder.Dates)
      (fun lib c hc r hr => c.dated hr fun entry he => by
        subst hc he
        exact hx.2)
      (fun _ dead probes _ r hr => hr.of_spares (r.graph.spares_reuse dead probes))
      Recorder.dates_perform
    exact hdates lib ih

end Linked

end Shapes

/-! ## Users and their blocks -/

/-- The living block that a value ends, going by the kind of its wrapper. -/
def ValueWrapper.ended? (g : Graph) (y : ValueWrapper) : Option BlockRef :=
  if y.isA (.ofClass .terminatorInst) then g.home? y.handle else none

/-- Terminators are instructions. -/
theorem View.accepts_instruction_of_terminator {k : ValueKind}
    (hk : k.isA (.ofClass .terminatorInst) = true) : View.instruction.accepts k = true := by
  have hall : ∀ k ∈ ValueKind.all, k.isA (.ofClass .terminatorInst) = true →
      View.instruction.accepts k = true := by decide +kernel
  exact hall k k.mem_all hk

/-- The kind of a wrapper matters for the block that its value ends only if the value stands in a
block, and then it is up to date. -/
theorem ValueWrapper.ended?_eq {g : Graph} (hg : g.WellFormed) {policy : UnknownValues}
    {y : ValueWrapper} {k : ValueKind} (hk : g.valueKind y.handle policy = .ok k)
    (hy : ∀ ve, g.values.get? y.handle = some ve → ve.parent ≠ .null → y.kind = k) :
    y.ended? g = g.ended? policy y.handle := by
  rw [ended?, Graph.ended?, hk]
  cases hh : g.home? y.handle with
  | none => simp
  | some b =>
    obtain ⟨ve, hve, rfl, hne⟩ := Graph.exists_of_home? hg hh
    rw [ValueWrapper.isA, hy ve hve hne]

/-- A wrapper is one of a user of something: the wrapper and the library agree on the block that the
user ends. -/
structure ValueWrapper.ShowsUser (log : List Forgetting) (s : Recorders) (cx : Context)
    (x : ValueRef) (y : ValueWrapper) : Prop extends y.Shows log cx x where
  ended : y.ended? (s.recorder cx.library).graph =
    (s.recorder cx.library).graph.ended? cx.options.unknownValues x

/-- A wrapper of a living block, which has not been forgotten. -/
def BasicBlock.Shows (log : List Forgetting) (s : Recorders) (cx : Context) (b : BlockRef)
    (bb : BasicBlock) : Prop :=
  ∃ e, (s.recorder cx.library).graph.blocks.get? b = some e ∧ bb.value.Shows log cx e.value

/-- A wrapper of a living value with the uses `us`. -/
structure ValueWrapper.Used (v : ValueWrapper) (s : Recorders) (us : List UseRef) : Prop where
  wellFormed : (s.recorder v.context.library).graph.WellFormed
  listed : (s.recorder v.context.library).graph.Listed
  value : ∃ ve, (s.recorder v.context.library).graph.values.get? v.handle = some ve ∧ ve.uses = us

section Rules

variable {log : List Forgetting} {s : Recorders} {l : List Reference}
variable {v : ValueWrapper} {us : List UseRef} {bb : BasicBlock}

namespace ValueWrapper.Used

theorem use_of_split (h : v.Used s us) {pre rest : List UseRef} {u : UseRef}
    (hus : us = pre ++ u :: rest) :
    u.isNull = false ∧ (s.recorder v.context.library).graph.nextUse u = rest.headD .null ∧
      ∃ ue, (s.recorder v.context.library).graph.uses.get? u = some ue := by
  obtain ⟨ve, hve, rfl⟩ := h.value
  exact h.listed.use_of_split hve hus

theorem perform_firstUse (h : v.Used s us) :
    ((s.recorder v.context.library).graph.perform (.firstUse v.handle)).1 =
      .ok (us.headD .null) := by
  obtain ⟨ve, hve, rfl⟩ := h.value
  exact congrArg Except.ok (Graph.ofValue_of_get? hve _ _)

/-- The bound of walks is above the number of the uses. -/
theorem length_le (h : v.Used s us) : us.length ≤ (s.recorder v.context.library).walkLimit := by
  obtain ⟨ve, hve, rfl⟩ := h.value
  have hle := Graph.length_le_allocated (h.listed.nodup _ ve hve) fun _ hu =>
    h.listed.handed_of_mem hve hu
  rw [Recorder.walkLimit]
  omega

end ValueWrapper.Used

/-- A wrapper of a block is among held wrappers of blocks just when the block is among these. -/
theorem Asking.any_id_iff {w : World Recorders} (h : Asking log s l w) {cx : Context}
    (hg : (s.recorder cx.library).graph.WellFormed) {fs : List BlockRef} {found : List BasicBlock}
    (hfound : List.Forall₂ (BasicBlock.Shows log s cx) fs found)
    (hheld : ∀ q ∈ found, .value q.value ∈ l) {b : BlockRef} (hb : bb.Shows log s cx b)
    (hbb : .value bb.value ∈ l) :
    found.any (·.value.id == bb.value.id) = true ↔ b ∈ fs := by
  have hR (b : BlockRef) (q : BasicBlock) (hq : q.Shows log s cx b) :
      ∃ e, (s.recorder cx.library).graph.blocks.get? b = some e ∧ q.value.handle = e.value := by
    obtain ⟨e, he, hq⟩ := hq
    exact ⟨e, he, hq.handle⟩
  refine Operation.any_id_iff_of_handle hg hR hfound hb fun q hq => ?_
  obtain ⟨b', -, e', -, hq'⟩ := exists_mem_of_forall₂ hfound.flip hq
  obtain ⟨e, -, hb⟩ := hb
  rw [hq'.handle, hb.handle]
  exact h.id_eq_iff hq' hb (hheld q hq) hbb

namespace Operation

/-- A use leads to the wrapper of its user, unless that is null, and on to the next use. -/
theorem leads_stepUse (h : v.Used s us) (hv : .value v ∈ l) {pre rest : List UseRef} {u : UseRef}
    (hus : us = pre ++ u :: rest)
    (hp : (s.recorder v.context.library).graph.Passes v.context.options.unknownValues u) :
    Leads (Asking log s) l (stepUse v u) l (fun p => p.1 = rest.headD .null ∧
      Option.Rel (ValueWrapper.ShowsUser log s v.context)
        ((s.recorder v.context.library).graph.user? u) p.2) := by
  have howner : ∃ r ∈ l, r.owner = v.context := ⟨_, hv, rfl⟩
  obtain ⟨-, hnext, ue, hue⟩ := h.use_of_split hus
  have huser : ((s.recorder v.context.library).graph.perform (.useUser u)).1 = .ok ue.user := by
    simp only [Graph.perform, hue, Option.elim_some]
  refine (leads_ask v (c := .nextUse u) rfl rfl).bind fun next hn => ?_
  obtain rfl : next = rest.headD .null := hn.trans hnext
  refine (leads_ask v rfl huser).bind fun x hx => ?_
  obtain rfl : x = ue.user := hx
  rw [Graph.user?_of_get? hue]
  cases hn : ue.user.isNull with
  | true =>
    refine (leads_internValue_null v.context hn).bind fun y hy => ?_
    obtain rfl : y = none := hy
    exact leads_pure (Asking.tenable log s) (List.Perm.refl _) ⟨rfl, .none⟩
  | false =>
    obtain ⟨hhanded, k, hk⟩ := hp ue.user (by
      rw [Graph.user?_of_get? hue, hn]
      rfl)
    refine (leads_internValue howner hhanded hk).bind fun y hy => ?_
    obtain ⟨y, rfl, hy, hkind⟩ := hy
    refine leads_pure (Asking.tenable log s) (List.Perm.refl _) ⟨rfl, .some { hy with ended := ?_ }⟩
    rw [← hy.handle] at hk hkind ⊢
    exact ValueWrapper.ended?_eq h.wellFormed hk hkind

/-- The walk from one of the uses of a value on. -/
theorem leads_usersFrom (h : v.Used s us) (hv : .value v ∈ l) {pre rest : List UseRef}
    (hus : us = pre ++ rest) (hp : ∀ u ∈ rest,
      (s.recorder v.context.library).graph.Passes v.context.options.unknownValues u)
    {limit : Nat} (hlimit : rest.length ≤ limit) :
    Leads (Asking log s) l (usersFrom v limit (rest.headD .null)) l
      (List.Forall₂ (ValueWrapper.ShowsUser log s v.context)
        (rest.filterMap (s.recorder v.context.library).graph.user?)) := by
  have hI := Asking.tenable log s
  induction rest generalizing pre limit l with
  | nil =>
    unfold usersFrom
    exact leads_pure hI (List.Perm.refl _) .nil
  | cons u rest ih =>
    obtain ⟨limit, rfl⟩ := Nat.exists_eq_add_one_of_ne_zero (Nat.ne_zero_of_lt hlimit)
    have hlim : rest.length ≤ limit := Nat.le_of_succ_le_succ hlimit
    have hsplit : us = (pre ++ [u]) ++ rest := hus.trans (List.append_cons pre u rest)
    unfold usersFrom
    rw [List.headD_cons, if_neg (Bool.eq_false_iff.mp (h.use_of_split hus).1)]
    obtain ⟨hpu, hp⟩ := List.forall_mem_cons.mp hp
    refine (leads_stepUse h hv hus hpu).bind fun p hstep => ?_
    obtain ⟨next, y⟩ := p
    obtain ⟨rfl, hy⟩ := hstep
    cases hx : (s.recorder v.context.library).graph.user? u with
    | none =>
      rw [hx] at hy
      cases hy
      rw [List.filterMap_cons_none hx]
      exact ih hv hsplit hp hlim
    | some x =>
      rw [hx] at hy
      cases hy with | some hy =>
      rename_i y
      rw [List.filterMap_cons_some hx]
      have hrest := ih (List.mem_cons_of_mem (.value y) hv) hsplit hp hlim
      refine ((hrest.cons hI rfl).orRelease _).imp ?_
      rintro ys ⟨ys, rfl, hys⟩
      exact .cons hy hys

/-- A user is the terminator of a living block, whose wrapper comes then, or none. -/
theorem leads_predecessorOf {user : ValueWrapper} (hm : .value user ∈ l) :
    Leads (Asking log s) l (predecessorOf user) l
      (Option.Rel (BasicBlock.Shows log s user.context)
        (user.ended? (s.recorder user.context.library).graph)) := by
  have hI := Asking.tenable log s
  unfold predecessorOf ValueWrapper.ended?
  split
  · next hterm =>
    have hacc := View.accepts_instruction_of_terminator hterm
    have hd : user.downcast? .instruction = some ⟨user, hacc⟩ := dif_pos hacc
    have howner : ∃ r ∈ l, r.owner = user.context := ⟨_, hm, rfl⟩
    let parent := (s.recorder user.context.library).graph.ofValue user.handle .null (·.parent)
    rw [hd]
    refine (leads_ask user (c := .instructionParent user.handle) (a := parent) rfl rfl).bind
      fun b hb => ?_
    obtain rfl : b = parent := hb
    show Leads _ _ _ _ (Option.Rel _ ((some parent).filter _))
    cases he : (s.recorder user.context.library).graph.blocks.get? parent with
    | none =>
      rw [Option.filter_some_neg (by simp [Table.contains, he])]
      refine (leads_internBlock_none user.context he).imp fun x hx => ?_
      obtain rfl : x = none := hx
      exact .none
    | some e =>
      rw [Option.filter_some_pos (Graph.contains_iff.mpr ⟨e, he⟩)]
      refine (leads_internBlock howner he).imp fun x hx => ?_
      obtain ⟨bb, rfl, hbb⟩ := hx
      exact .some ⟨e, he, hbb⟩
  · exact leads_pure hI (List.Perm.refl _) .none

/-- The walk from one of the uses of a block on: of the blocks that the users end, it adds each one
that was not found before, where it comes up first. -/
theorem leads_predecessorsFrom (h : bb.value.Used s us) (hv : .value bb.value ∈ l)
    {pre rest : List UseRef} (hus : us = pre ++ rest) (hp : ∀ u ∈ rest,
      (s.recorder bb.value.context.library).graph.Passes
        bb.value.context.options.unknownValues u)
    {limit : Nat} (hlimit : rest.length ≤ limit)
    {fs : List BlockRef} {found : List BasicBlock}
    (hfound : List.Forall₂ (BasicBlock.Shows log s bb.value.context) fs found)
    (hheld : ∀ q ∈ found, .value q.value ∈ l) :
    Leads (Asking log s) l (predecessorsFrom bb limit found (rest.headD .null)) l
      (List.Forall₂ (BasicBlock.Shows log s bb.value.context)
        ((((rest.filterMap (s.recorder bb.value.context.library).graph.user?).filterMap
          ((s.recorder bb.value.context.library).graph.ended?
            bb.value.context.options.unknownValues)).filter (· ∉ fs)).eraseDups)) := by
  have hI := Asking.tenable log s
  let g := (s.recorder bb.value.context.library).graph
  induction rest generalizing pre limit fs found l with
  | nil =>
    unfold predecessorsFrom
    exact leads_pure hI (List.Perm.refl _) .nil
  | cons u rest ih =>
    obtain ⟨limit, rfl⟩ := Nat.exists_eq_add_one_of_ne_zero (Nat.ne_zero_of_lt hlimit)
    have hlim : rest.length ≤ limit := Nat.le_of_succ_le_succ hlimit
    have hsplit : us = (pre ++ [u]) ++ rest := hus.trans (List.append_cons pre u rest)
    unfold predecessorsFrom
    rw [List.headD_cons, if_neg (Bool.eq_false_iff.mp (h.use_of_split hus).1)]
    obtain ⟨hpu, hp⟩ := List.forall_mem_cons.mp hp
    refine (leads_stepUse h hv hus hpu).bind fun p hstep => ?_
    obtain ⟨next, y⟩ := p
    obtain ⟨rfl, hy⟩ := hstep
    cases hx : g.user? u with
    | none =>
      rw [hx] at hy
      cases hy
      rw [List.filterMap_cons_none hx]
      exact ih hv hsplit hp hlim hfound hheld
    | some x =>
      rw [hx] at hy
      cases hy with | some hy =>
      rename_i user
      rw [List.filterMap_cons_some hx]
      have howner : ∃ r ∈ l, r.owner = user.context := ⟨_, hv, hy.context.symm⟩
      have hpred : Leads (Asking log s) (.value user :: l)
          (releasing (.value user) (predecessorOf user)) l _ :=
        (leads_predecessorOf List.mem_cons_self).releasing hI howner
      refine hpred.bind fun p hq => ?_
      rw [hy.context, hy.ended] at hq
      cases hb : g.ended? bb.value.context.options.unknownValues x with
      | none =>
        rw [hb] at hq
        cases hq
        rw [List.filterMap_cons_none hb]
        exact ih hv hsplit hp hlim hfound hheld
      | some b =>
        rw [hb] at hq
        cases hq with | some hq =>
        rename_i q
        rw [List.filterMap_cons_some hb]
        have hheld' : ∀ q' ∈ found, .value q'.value ∈ Reference.value q.value :: l :=
          fun q' hq' => List.mem_cons_of_mem _ (hheld q' hq')
        refine leads_of (fun w ha => ha.any_id_iff h.wellFormed hfound hheld' hq
          List.mem_cons_self) fun hiff => ?_
        dsimp only
        by_cases hmem : b ∈ fs
        · rw [if_pos (hiff.mpr hmem), List.filter_cons_of_neg (by simpa using hmem)]
          obtain ⟨e, -, hshows⟩ := hq
          refine (leads_release hI (r := .value q.value)
            ⟨_, hv, hshows.context.symm⟩).bind fun _ _ => ?_
          exact ih hv hsplit hp hlim hfound hheld
        · rw [if_neg (mt hiff.mp hmem), Memory.Plan.eraseDups_filter_cons hmem]
          have hfound' : List.Forall₂ (BasicBlock.Shows log s bb.value.context) (fs ++ [b])
              (found ++ [q]) :=
            List.rel_append hfound (.cons hq .nil)
          have hrest := ih (l := .value q.value :: l) (List.mem_cons_of_mem _ hv) hsplit hp hlim hfound'
            fun q' hq' => by
              rcases List.mem_append.mp hq' with hq' | hq'
              · exact hheld' q' hq'
              · exact List.mem_singleton.mp hq' ▸ List.mem_cons_self
          refine ((hrest.cons hI rfl).orRelease _).imp ?_
          rintro qs ⟨qs, rfl, hqs⟩
          exact .cons hq hqs

/-- The users of a value are those of its uses, in their order. -/
theorem leads_users (h : v.Used s us) (hv : .value v ∈ l) (hp : ∀ u ∈ us,
      (s.recorder v.context.library).graph.Passes v.context.options.unknownValues u) :
    Leads (Asking log s) l (users v) l
      (List.Forall₂ (ValueWrapper.ShowsUser log s v.context)
        (us.filterMap (s.recorder v.context.library).graph.user?)) := by
  refine (leads_ask v rfl h.perform_firstUse).bind fun first hf => ?_
  obtain rfl : first = _ := hf
  refine (leads_walkLimit v.context.library).bind fun limit hlim => ?_
  have hus : us = [] ++ us := rfl
  exact leads_usersFrom h hv hus hp (hlim ▸ h.length_le)

/-- The predecessors of a block are the blocks that its users end, each where it comes up first. -/
theorem leads_predecessors (h : bb.value.Used s us) (hv : .value bb.value ∈ l) (hp : ∀ u ∈ us,
      (s.recorder bb.value.context.library).graph.Passes
        bb.value.context.options.unknownValues u) :
    Leads (Asking log s) l (predecessors bb) l
      (List.Forall₂ (BasicBlock.Shows log s bb.value.context)
        ((s.recorder bb.value.context.library).graph.endedBy
          bb.value.context.options.unknownValues us)) := by
  refine (leads_ask bb.value rfl h.perform_firstUse).bind fun first hf => ?_
  obtain rfl : first = _ := hf
  refine (leads_walkLimit bb.value.context.library).bind fun limit hlim => ?_
  have hus : us = [] ++ us := rfl
  have hall (bs : List BlockRef) : bs.filter (fun b => b ∉ ([] : List BlockRef)) = bs :=
    List.filter_eq_self.mpr fun a _ => by simp
  rw [Graph.endedBy, ← hall (List.filterMap _ _)]
  exact leads_predecessorsFrom h hv hus hp (hlim ▸ h.length_le) .nil
    fun q hq => absurd hq List.not_mem_nil

end Operation

end Rules

/-! ## Runs -/

namespace Shapes

/-- The walks over the uses `us` of a value are exact, and `xs` are the users. -/
structure Traced (log : List Forgetting) (v : ValueWrapper) (us : List UseRef)
    (xs : List ValueWrapper) (w : World Recorders) : Prop where
  /-- The uses stand in the order in which they were recorded. -/
  ascending : us.Pairwise fun u u' => u.address < u'.address
  /-- Each user that is not null comes with its canonical wrapper, and nothing else is held. -/
  users : ∃ w', (Operation.users v).action.apply w = (.ok xs, w') ∧
    List.Forall₂ (w'.Presents log v.context)
      (us.filterMap (w.graph v.context.library).user?) xs ∧
    w'.held.Perm (xs.map .value ++ w.held)
  /-- The blocks that the users end, going by their wrappers, are those that they end according to
  the library. -/
  ended : (xs.filterMap (·.ended? (w.graph v.context.library))).eraseDups =
    (w.graph v.context.library).endedBy v.context.options.unknownValues us
  /-- These blocks come with their canonical wrappers, each once, and nothing else is held. -/
  predecessors : ∀ bb : BasicBlock, bb.value = v → ∃ ps w',
    (Operation.predecessors bb).action.apply w = (.ok ps, w') ∧ (ps.map (·.value.id)).Nodup ∧
      List.Forall₂ (fun b p => ∃ e, (w.graph v.context.library).blocks.get? b = some e ∧
          w'.Presents log v.context e.value p.value)
        (xs.filterMap (·.ended? (w.graph v.context.library))).eraseDups ps ∧
      w'.held.Perm (ps.map (fun p => .value p.value) ++ w.held)

/-- The walks over uses are exact if all users can pass the gate. -/
theorem traced_of_passes {log : List Forgetting} {w : World Recorders} (h : Ready log w)
    {v : ValueWrapper} {ve : ValueEntry} (hd : (w.graph v.context.library).Dated)
    (hv : .value v ∈ w.held)
    (hve : (w.graph v.context.library).values.get? v.handle = some ve)
    (hk : ∀ x ∈ ve.uses,
      (w.graph v.context.library).Passes v.context.options.unknownValues x) :
    ∃ xs, Traced log v ve.uses xs w := by
  let g := w.graph v.context.library
  have hg : g.WellFormed := h.shaped.graph _
  have hused : v.Used w.native ve.uses := ⟨hg, hd.toListed, ⟨ve, hve, rfl⟩⟩
  obtain ⟨xs, w', hrun, hxs, hw'⟩ := Operation.leads_users hused hv hk w h.asking
  rw [Carries.references_values] at hw'
  have hended : (xs.filterMap (·.ended? g)).eraseDups =
      g.endedBy v.context.options.unknownValues ve.uses :=
    congrArg List.eraseDups (filterMap_eq_of_forall₂ hxs fun _ _ hy => hy.ended.symm).symm
  refine ⟨xs, hd.ascending _ ve hve, ⟨w', hrun, ?_, hw'.held⟩, hended, fun bb hbb => ?_⟩
  · refine forall₂_of_mem hxs fun x y hy hshows => hw'.presents hshows.toShows ?_
    exact List.mem_append_left _ (List.mem_map_of_mem hy)
  · subst hbb
    obtain ⟨ps, w'', hrun', hps, hw''⟩ := Operation.leads_predecessors hused hv hk w h.asking
    rw [Carries.references_views] at hw''
    have hheld {p : BasicBlock} (hp : p ∈ ps) :
        .value p.value ∈ ps.map (fun p => Reference.value p.value) ++ w.held :=
      List.mem_append_left _ (List.mem_map.mpr ⟨p, hp, rfl⟩)
    refine ⟨ps, w'', hrun', ?_, ?_, hw''.held⟩
    · refine nodup_map_of_forall₂ hps (Memory.Graph.nodup_eraseDups _) _ ?_
      rintro b b' p hp p' hp' ⟨e, he, hshows⟩ ⟨e', he', hshows'⟩ hid
      have hval := (hw''.id_eq_iff hshows hshows' (hheld hp) (hheld hp')).mp hid
      exact hg.block_unique b e b' e' he he' hval
    · rw [hended]
      refine forall₂_of_mem hps fun b p hp hshows => ?_
      obtain ⟨e, he, hshows⟩ := hshows
      exact ⟨e, he, hw''.presents hshows (hheld hp)⟩

/-- In every state where uses were recorded one by one, the users of a living value are exactly those
recorded, and the predecessors of a block are exactly the blocks that these end. -/
theorem Linked.traced {u : Shapes} (h : Linked u) {v : ValueWrapper} {ve : ValueEntry}
    (hv : .value v ∈ u.world.held)
    (hve : (u.world.graph v.context.library).values.get? v.handle = some ve)
    (hk : ∀ x ∈ ve.uses,
      (u.world.graph v.context.library).Known v.context.options.unknownValues x) :
    ∃ xs, Traced u.machine.log v ve.uses xs u.world :=
  traced_of_passes h.reachable.ready (h.dated _) hv hve fun x hx =>
    (hk x hx).passes (h.reachable.ready.shaped.graph _)

/-- A block that is branched to twice from another one, and that has two more uses; the user of the
first of these is null, and that of the second is no terminator. -/
def branchedTwice : List MemoryMove :=
  let address (n : Nat) : Nat := Memory.Graph.baseAddress + n * Memory.Graph.stride
  let cx : Context := ⟨0, ⟨0⟩, ⟨address 12⟩, true, {}⟩
  [.build ⟨0⟩ .function, .build ⟨0⟩ (.appendBlock ⟨address 1⟩ "exit"),
    .build ⟨0⟩ (.appendBlock ⟨address 1⟩ "entry"),
    .build ⟨0⟩ (.branch ⟨address 5⟩ [⟨address 3⟩, ⟨address 3⟩]),
    .build ⟨0⟩ (.addUse ⟨address 2⟩ .null),
    .build ⟨0⟩ (.newValue { probes := [.argument] }),
    .build ⟨0⟩ (.addUse ⟨address 2⟩ ⟨address 10⟩)] ++
    MemoryMove.serve (.createContext ⟨0⟩ {}) ++
    MemoryMove.serve (.internBlock (.context cx) ⟨address 3⟩)

theorem traced_branchedTwice :
    let address (n : Nat) : Nat := Memory.Graph.baseAddress + n * Memory.Graph.stride
    let cx : Context := ⟨0, ⟨0⟩, ⟨address 12⟩, true, {}⟩
    let exit : ValueWrapper := ⟨1, cx, ⟨address 2⟩, .ofClass .basicBlock⟩
    let uses : List UseRef := [⟨address 7⟩, ⟨address 8⟩, ⟨address 9⟩, ⟨address 11⟩]
    let u := branchedTwice.foldl next {}
    let g := u.world.graph ⟨0⟩
    uses.filterMap g.user? = [⟨address 6⟩, ⟨address 6⟩, ⟨address 10⟩] ∧
      g.endedBy .reject uses = [⟨address 5⟩] ∧ ∃ xs, Traced u.machine.log exit uses xs u.world :=
  let address (n : Nat) : Nat := Memory.Graph.baseAddress + n * Memory.Graph.stride
  let exit : ValueEntry :=
    { probes := [.basicBlock], name := "exit"
      uses := [⟨address 7⟩, ⟨address 8⟩, ⟨address 9⟩, ⟨address 11⟩] }
  ⟨by decide +kernel, by decide +kernel,
    @Linked.traced _ (Linked.start.moves (by decide +kernel)) _ exit (by decide +kernel)
      (by decide +kernel) (by decide +kernel)⟩

end Shapes

end CanonIR
