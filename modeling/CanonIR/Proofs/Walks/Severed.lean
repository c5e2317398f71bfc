import CanonIR.Proofs.Binding.Steps
import CanonIR.Proofs.Memory.Wired
import CanonIR.Proofs.Walks.Users

/-!
Walks along uses after deletions. A deletion destroys the branches of a block, but the uses that these
have made of other blocks stay recorded. Where a branch of the deleted block leads to another block,
the walks over the uses of that one meet a user that is gone: they break off where unknown values are
rejected, and where they are tolerated the users come with a wrapper of nothing. Only the predecessors
are the right ones then; a user that is gone ends no block (`Shapes.Branched.severed`).
-/

namespace CanonIR

open Memory (Graph BlockEntry)

/-! ## Walks that break off -/

/-- The user `x` of a use cannot pass the gate. -/
structure Memory.Graph.Bars (g : Graph) (policy : UnknownValues) (u : UseRef) (x : ValueRef)
    (f : Fault) : Prop where
  user : g.user? u = some x
  handed : g.Handed x.address
  unkind : g.valueKind x policy = .error f

/-- None of the references is a wrapper of a value that has not been forgotten. -/
def Unseen (log : List Forgetting) (cx : Context) (x : ValueRef) (l : List Reference) : Prop :=
  ∀ y, .value y ∈ l → ¬ y.Shows log cx x

section Rules

variable {log : List Forgetting} {s : Recorders} {l : List Reference}
variable {v : ValueWrapper} {us : List UseRef} {bb : BasicBlock}
variable {u : UseRef} {x : ValueRef} {f : Fault}

theorem Unseen.cons {cx : Context} (h : Unseen log cx x l) {y : ValueWrapper} (hy : y.handle ≠ x) :
    Unseen log cx x (.value y :: l) := by
  intro y' hm hshows
  rcases List.mem_cons.mp hm with hm | hm
  · obtain rfl := Reference.value.inj hm
    exact hy hshows.handle
  · exact h y' hm hshows

namespace Operation

theorem fails_stepUse (h : v.Used s us) (hv : .value v ∈ l) {pre rest : List UseRef}
    (hus : us = pre ++ u :: rest)
    (hx : (s.recorder v.context.library).graph.Bars v.context.options.unknownValues u x f)
    (hl : Unseen log v.context x l) : Fails (Asking log s) l (stepUse v u) l f := by
  obtain ⟨-, hnext, ue, hue⟩ := h.use_of_split hus
  have huser : ((s.recorder v.context.library).graph.perform (.useUser u)).1 = .ok x := by
    have hx := hx.user
    rw [Graph.user?_of_get? hue] at hx
    simp only [Graph.perform, hue, Option.elim_some]
    split at hx
    · cases hx
    · rw [Option.some.inj hx]
  refine (leads_ask v (c := .nextUse u) rfl rfl).bind_fails fun next _ => ?_
  refine (leads_ask v rfl huser).bind_fails fun x' hx' => ?_
  obtain rfl : x' = x := hx'
  exact (fails_internValue ⟨_, hv, rfl⟩ hx.handed hx.unkind hl).bind

/-- The walk breaks off at the first use whose user cannot pass the gate. -/
theorem fails_usersFrom (h : v.Used s us) (hv : .value v ∈ l) {pre mid post : List UseRef}
    (hus : us = pre ++ (mid ++ u :: post)) (hp : ∀ z ∈ mid,
      (s.recorder v.context.library).graph.Passes v.context.options.unknownValues z)
    (hx : (s.recorder v.context.library).graph.Bars v.context.options.unknownValues u x f)
    (hl : Unseen log v.context x l) {limit : Nat} (hlimit : (mid ++ u :: post).length ≤ limit) :
    Fails (Asking log s) l (usersFrom v limit ((mid ++ u :: post).headD .null)) l f := by
  have hI := Asking.tenable log s
  induction mid generalizing pre limit l with
  | nil =>
    obtain ⟨limit, rfl⟩ := Nat.exists_eq_add_one_of_ne_zero (Nat.ne_zero_of_lt hlimit)
    unfold usersFrom
    rw [List.nil_append, List.headD_cons, if_neg (Bool.eq_false_iff.mp (h.use_of_split hus).1)]
    exact (fails_stepUse h hv hus hx hl).bind
  | cons z mid ih =>
    obtain ⟨limit, rfl⟩ := Nat.exists_eq_add_one_of_ne_zero (Nat.ne_zero_of_lt hlimit)
    have hlim : (mid ++ u :: post).length ≤ limit := Nat.le_of_succ_le_succ hlimit
    have hsplit : us = (pre ++ [z]) ++ (mid ++ u :: post) := hus.trans (List.append_cons pre z _)
    obtain ⟨hpz, hp⟩ := List.forall_mem_cons.mp hp
    unfold usersFrom
    rw [List.cons_append, List.headD_cons,
      if_neg (Bool.eq_false_iff.mp (h.use_of_split hus).1)]
    refine (leads_stepUse h hv hus hpz).bind_fails fun p hstep => ?_
    obtain ⟨next, y⟩ := p
    obtain ⟨rfl, hy⟩ := hstep
    cases hz : (s.recorder v.context.library).graph.user? z with
    | none =>
      rw [hz] at hy
      cases hy
      exact ih hv hsplit hp hl hlim
    | some z' =>
      rw [hz] at hy
      cases hy with | some hy =>
      rename_i y
      have hne : y.handle ≠ x := by
        rw [hy.handle]
        rintro rfl
        obtain ⟨-, k, hk⟩ := hpz z' hz
        cases hk.symm.trans hx.unkind
      have hrest := ih (List.mem_cons_of_mem (.value y) hv) hsplit hp (hl.cons hne) hlim
      exact hrest.bind.orRelease hI ⟨_, hv, hy.context.symm⟩

theorem fails_predecessorsFrom (h : bb.value.Used s us) (hv : .value bb.value ∈ l)
    {pre mid post : List UseRef} (hus : us = pre ++ (mid ++ u :: post)) (hp : ∀ z ∈ mid,
      (s.recorder bb.value.context.library).graph.Passes
        bb.value.context.options.unknownValues z)
    (hx : (s.recorder bb.value.context.library).graph.Bars
      bb.value.context.options.unknownValues u x f)
    (hl : Unseen log bb.value.context x l) {limit : Nat}
    (hlimit : (mid ++ u :: post).length ≤ limit) (found : List BasicBlock) :
    Fails (Asking log s) l (predecessorsFrom bb limit found ((mid ++ u :: post).headD .null)) l f := by
  have hI := Asking.tenable log s
  induction mid generalizing pre limit found l with
  | nil =>
    obtain ⟨limit, rfl⟩ := Nat.exists_eq_add_one_of_ne_zero (Nat.ne_zero_of_lt hlimit)
    unfold predecessorsFrom
    rw [List.nil_append, List.headD_cons, if_neg (Bool.eq_false_iff.mp (h.use_of_split hus).1)]
    exact (fails_stepUse h hv hus hx hl).bind
  | cons z mid ih =>
    obtain ⟨limit, rfl⟩ := Nat.exists_eq_add_one_of_ne_zero (Nat.ne_zero_of_lt hlimit)
    have hlim : (mid ++ u :: post).length ≤ limit := Nat.le_of_succ_le_succ hlimit
    have hsplit : us = (pre ++ [z]) ++ (mid ++ u :: post) := hus.trans (List.append_cons pre z _)
    obtain ⟨hpz, hp⟩ := List.forall_mem_cons.mp hp
    unfold predecessorsFrom
    rw [List.cons_append, List.headD_cons,
      if_neg (Bool.eq_false_iff.mp (h.use_of_split hus).1)]
    refine (leads_stepUse h hv hus hpz).bind_fails fun p hstep => ?_
    obtain ⟨next, y⟩ := p
    obtain ⟨rfl, hy⟩ := hstep
    cases hz : (s.recorder bb.value.context.library).graph.user? z with
    | none =>
      rw [hz] at hy
      cases hy
      exact ih hv hsplit hp hl hlim found
    | some z' =>
      rw [hz] at hy
      cases hy with | some hy =>
      rename_i user
      have howner : ∃ r ∈ l, r.owner = user.context := ⟨_, hv, hy.context.symm⟩
      have hpred : Leads (Asking log s) (.value user :: l)
          (releasing (.value user) (predecessorOf user)) l _ :=
        (leads_predecessorOf List.mem_cons_self).releasing hI howner
      refine hpred.bind_fails fun p hq => ?_
      cases p with
      | none => exact ih hv hsplit hp hl hlim found
      | some q =>
        cases hb : user.ended? (s.recorder user.context.library).graph with
        | none =>
          rw [hb] at hq
          cases hq
        | some b =>
        rw [hb, hy.context] at hq
        cases hq with | some hq =>
        obtain ⟨e, he, hq⟩ := hq
        dsimp only
        split
        · refine (leads_release hI (r := .value q.value)
            ⟨_, hv, hq.context.symm⟩).bind_fails fun _ _ => ?_
          exact ih hv hsplit hp hl hlim found
        · -- A block has a kind, so it is none of what cannot pass.
          have hne : q.value.handle ≠ x := by
            rw [hq.handle]
            rintro rfl
            cases (Graph.valueKind_of_block h.wellFormed he _).symm.trans hx.unkind
          have hrest := ih (List.mem_cons_of_mem (.value q.value) hv) hsplit hp (hl.cons hne) hlim
            (found ++ [q])
          exact hrest.bind.orRelease hI ⟨_, hv, hq.context.symm⟩

theorem fails_users (h : v.Used s us) (hv : .value v ∈ l) {pre post : List UseRef}
    (hus : us = pre ++ u :: post) (hp : ∀ z ∈ pre,
      (s.recorder v.context.library).graph.Passes v.context.options.unknownValues z)
    (hx : (s.recorder v.context.library).graph.Bars v.context.options.unknownValues u x f)
    (hl : Unseen log v.context x l) : Fails (Asking log s) l (users v) l f := by
  refine (leads_ask v rfl h.perform_firstUse).bind_fails fun first hf => ?_
  obtain rfl : first = _ := hf
  refine (leads_walkLimit v.context.library).bind_fails fun limit hlim => ?_
  have hall : us = [] ++ (pre ++ u :: post) := hus
  rw [hus]
  exact fails_usersFrom h hv hall hp hx hl (hus ▸ hlim ▸ h.length_le)

theorem fails_predecessors (h : bb.value.Used s us) (hv : .value bb.value ∈ l)
    {pre post : List UseRef} (hus : us = pre ++ u :: post) (hp : ∀ z ∈ pre,
      (s.recorder bb.value.context.library).graph.Passes
        bb.value.context.options.unknownValues z)
    (hx : (s.recorder bb.value.context.library).graph.Bars
      bb.value.context.options.unknownValues u x f)
    (hl : Unseen log bb.value.context x l) : Fails (Asking log s) l (predecessors bb) l f := by
  refine (leads_ask bb.value rfl h.perform_firstUse).bind_fails fun first hf => ?_
  obtain rfl : first = _ := hf
  refine (leads_walkLimit bb.value.context.library).bind_fails fun limit hlim => ?_
  have hall : us = [] ++ (pre ++ u :: post) := hus
  rw [hus]
  exact fails_predecessorsFrom h hv hall hp hx hl (hus ▸ hlim ▸ h.length_le) []

end Operation

end Rules

/-! ## States -/

/-- Nothing but branches is made to use anything, and no address is used again. -/
def MemoryMove.Branching : MemoryMove → Prop
  | build _ (.newValue entry) => entry.uses = []
  | build _ (.addUse _ _) => False
  | reuse _ _ _ => False
  | _ => True

instance (x : MemoryMove) : Decidable x.Branching :=
  match x with
  | .build _ (.newValue _) => inferInstanceAs (Decidable (_ = _))
  | .build _ (.addUse _ _) | .reuse _ _ _ => inferInstanceAs (Decidable False)
  | .build _ .newContext | .build _ (.newType _) | .build _ (.intType _ _) | .build _ .function
  | .build _ (.setType _ _) | .build _ (.setPredicate _ _) | .build _ (.appendBlock _ _)
  | .build _ (.instruction _ _ _) | .build _ (.branch _ _) | .ask _ | .advance _ | .release _ =>
    .isTrue trivial

namespace Recorder

/-- All users are branches if they have been. -/
def Wires (r r' : Recorder) : Prop := r.graph.Wired → r'.graph.Wired

instance : IsPreorder Recorder Wires where
  refl _ := id
  trans _ _ _ h h' := h' ∘ h

theorem wires_perform (r : Recorder) (c : Call) : r.Wires (r.perform c).2 := by
  intro h
  rw [graph_perform]
  exact h.perform c

end Recorder

theorem Primitive.Ungated.given {a : Primitive} (h : a.Ungated) (rs : Recorders) : a.Given rs := by
  cases a with
  | internValue | internBlock => exact h.elim
  | _ => trivial

namespace Shapes

/-- An enabled move by which nothing but branches comes to use anything. -/
def Branches (u : Shapes) (x : MemoryMove) : Prop := u.Enabled x ∧ x.Branching

instance (u : Shapes) (x : MemoryMove) : Decidable (u.Branches x) := by
  unfold Branches
  infer_instance

/-- The states that can be reached from empty libraries where only branches use anything. -/
inductive Branched : Shapes → Prop where
  | start : Branched {}
  | move {u : Shapes} (h : Branched u) (x : MemoryMove) (hx : u.Branches x) : Branched (u.next x)

variable {u : Shapes}

namespace Branched

theorem linked (h : Branched u) : Linked u := by
  induction h with
  | start => exact .start
  | move _ x hx ih =>
    refine ih.move x ⟨hx.1, ?_⟩
    cases x with
    | build lib c =>
      cases c with
      | newValue entry => exact hx.2
      | _ => trivial
    | _ => trivial

theorem moves (h : Branched u) {xs : List MemoryMove} (hx : Admits Branches next u xs) :
    Branched (xs.foldl next u) :=
  hx.foldl (fun _ x hu hx => hu.move x hx) h

theorem wired (h : Branched u) (lib : LibraryId) : (u.world.graph lib).Wired := by
  induction h with
  | start => exact Graph.wired_empty
  | @move u h x hx ih =>
    have hwires := h.linked.reachable.kept.each hx.1 (R := Recorder.Wires)
      (fun lib c hc r hr => c.wired hr fun used user he => by
        subst hc he
        exact hx.2)
      (fun lib dead probes he => by
        subst he
        exact hx.2.elim)
      Recorder.wires_perform
    exact hwires lib ih

/-- An operation that passes no gate can run to its end with nothing between its steps. -/
theorem run (h : Branched u) {b own : List Reference} {op : Operation (List Reference)}
    {ths : List Thread} (hth : u.machine.threads = ⟨b, own, op⟩ :: ths)
    (hop : op.Every Primitive.Ungated) :
    ∃ u', Branched u' ∧ u'.world = (op.action.apply u.world).2 := by
  induction op generalizing u own with
  | done x => exact ⟨u, h, rfl⟩
  | step a rest ih =>
    have ha : u.machine.primitive? 0 = some a := by
      rw [Machine.primitive?, hth]
      rfl
    have hx : u.Branches (.advance 0) := by
      refine ⟨⟨trivial, fun a' ha' => ?_, trivial⟩, trivial⟩
      obtain rfl : a = a' := Option.some.inj (ha.symm.trans ha')
      exact hop.1.given _
    have hnext : (u.next (.advance 0)).machine = u.machine.advance 0 ⟨b, own, .step a rest⟩ := by
      show u.machine.next (.advance 0) = _
      rw [Machine.next, hth]
      rfl
    have hworld : (u.next (.advance 0)).world = (a.action.apply u.world).2 :=
      congrArg Machine.world hnext
    have hrest : (u.next (.advance 0)).machine.threads =
        ⟨b, a.after (a.action.apply u.world).1 own, rest (a.action.apply u.world).1⟩ :: ths := by
      rw [hnext, Machine.advance, hth]
      rfl
    obtain ⟨u', hu', hw'⟩ := ih _ (h.move _ hx) hrest (hop.2 _)
    refine ⟨u', hu', ?_⟩
    rw [hw', hworld]
    rfl

theorem delete (h : Branched u) {ba : BasicBlock} (hba : .value ba.value ∈ u.machine.user) :
    ∃ u', Branched u' ∧ u'.world = ((Operation.delete ba).action.apply u.world).2 := by
  have hask : u.Branches (.ask (.delete ba)) :=
    ⟨⟨List.cons_subset.mpr ⟨hba, List.nil_subset _⟩, fun _ ha => absurd ha (Option.not_mem_none _),
      trivial⟩, trivial⟩
  have hth : (u.next (.ask (.delete ba))).machine.threads =
      ⟨[.value ba.value], [], (Request.delete ba).operation⟩ :: u.machine.threads := rfl
  obtain ⟨u', hu', hw'⟩ := (h.move _ hask).run hth ((Operation.ungated_delete ba).map _)
  refine ⟨u', hu', ?_⟩
  rw [hw']
  show ((Request.handing (Operation.delete ba)).action.apply u.world).2 = _
  rw [Request.handing, Operation.apply_map]
  rcases (Operation.delete ba).action.apply u.world with ⟨_ | _, _⟩ <;> rfl

end Branched

/-! ## Walks -/

/-- The walks over the uses of a value break off; then nothing else is held. -/
structure Broken (v : ValueWrapper) (f : Fault) (w : World Recorders) : Prop where
  users : ∃ w', (Operation.users v).action.apply w = (.error f, w') ∧ w'.held.Perm w.held
  predecessors : ∀ bb : BasicBlock, bb.value = v → ∃ w',
    (Operation.predecessors bb).action.apply w = (.error f, w') ∧ w'.held.Perm w.held

section Walks

variable {v : ValueWrapper} {ve : Memory.ValueEntry}

namespace Branched

/-- Where unknown values are tolerated, or all users live, the walks are exact. -/
theorem traces (h : Branched u) (hv : .value v ∈ u.world.held)
    (hve : (u.world.graph v.context.library).values.get? v.handle = some ve)
    (hp : v.context.options.unknownValues = .tolerate ∨
      (u.world.graph v.context.library).Peopled ve.uses) :
    ∃ xs, Traced u.machine.log v ve.uses xs u.world :=
  traced_of_passes h.linked.reachable.ready (h.linked.dated _) hv hve ((h.wired _).passes hp)

/-- Where unknown values are rejected, the walks break off at the first user that is gone, if there
is no wrapper of it. -/
theorem breaks (h : Branched u) (hv : .value v ∈ u.world.held)
    (hve : (u.world.graph v.context.library).values.get? v.handle = some ve)
    (hr : v.context.options.unknownValues = .reject) {pre post : List UseRef} {x : UseRef}
    {y : ValueRef} (hus : ve.uses = pre ++ x :: post)
    (hp : (u.world.graph v.context.library).Peopled pre)
    (hy : (u.world.graph v.context.library).user? x = some y)
    (hgone : (u.world.graph v.context.library).values.get? y = none)
    (hl : Unseen u.machine.log v.context y u.world.held) :
    Broken v (.drift (.unclassifiedValue y)) u.world := by
  let g := u.world.graph v.context.library
  have hready := h.linked.reachable.ready
  have hused : v.Used u.world.native ve.uses :=
    ⟨hready.shaped.graph _, (h.linked.dated _).toListed, ⟨ve, hve, rfl⟩⟩
  have hpass : ∀ z ∈ pre, g.Passes v.context.options.unknownValues z :=
    (h.wired _).passes (.inr hp)
  have hbars : g.Bars v.context.options.unknownValues x y (.drift (.unclassifiedValue y)) := by
    obtain ⟨ue, hue, rfl⟩ := Graph.user?_eq_some hy
    refine ⟨hy, (h.wired _ x ue hue).handed, ?_⟩
    rw [Graph.valueKind_of_get?_none hgone, hr]
  constructor
  · obtain ⟨w', hx, hw'⟩ :=
      Operation.fails_users hused hv hus hpass hbars hl u.world hready.asking
    exact ⟨w', hx, hw'.held⟩
  · rintro bb rfl
    obtain ⟨w', hx, hw'⟩ :=
      Operation.fails_predecessors hused hv hus hpass hbars hl u.world hready.asking
    exact ⟨w', hx, hw'.held⟩

end Branched

/-- Walks that are exact come with existing values just when all users exist. -/
theorem Traced.exist_iff {log : List Forgetting} {us : List UseRef} {xs : List ValueWrapper}
    {w : World Recorders} (h : Traced log v us xs w) :
    (∀ x ∈ xs, (w.graph v.context.library).values.contains x.handle = true) ↔
      (w.graph v.context.library).Peopled us := by
  obtain ⟨w', -, hxs, -⟩ := h.users
  constructor
  · intro hall y hy
    obtain ⟨x, hx, hshows⟩ := exists_mem_of_forall₂ hxs hy
    exact hshows.handle ▸ hall x hx
  · intro hall x hx
    obtain ⟨y, hy, hshows⟩ := exists_mem_of_forall₂ hxs.flip hx
    exact hshows.handle ▸ hall y hy

/-- Users come, and all of them exist, just when all users exist, if there are no wrappers of those
that do not. -/
theorem Branched.shows_iff (h : Branched u) (hv : .value v ∈ u.world.held)
    (hve : (u.world.graph v.context.library).values.get? v.handle = some ve)
    (hl : ∀ y ∈ ve.uses.filterMap (u.world.graph v.context.library).user?,
      (u.world.graph v.context.library).values.get? y = none →
        Unseen u.machine.log v.context y u.world.held) :
    (∃ xs w', (Operation.users v).action.apply u.world = (.ok xs, w') ∧
      ∀ x ∈ xs, (u.world.graph v.context.library).values.contains x.handle = true) ↔
        (u.world.graph v.context.library).Peopled ve.uses := by
  constructor
  · rintro ⟨xs, w', hrun, hall⟩
    cases hp : v.context.options.unknownValues with
    | tolerate =>
      obtain ⟨xs', htraced⟩ := h.traces hv hve (.inl hp)
      obtain ⟨w'', hrun', -⟩ := htraced.users
      obtain rfl : xs = xs' := Except.ok.inj (congrArg Prod.fst (hrun.symm.trans hrun'))
      exact htraced.exist_iff.mp hall
    | reject =>
      by_contra hn
      obtain ⟨pre, x, post, y, hus, hpre, hy, hgone⟩ := Graph.exists_first_of_not_peopled hn
      have hmem : x ∈ ve.uses := hus ▸ List.mem_append_right pre List.mem_cons_self
      have hbroken := h.breaks hv hve hp hus hpre hy hgone
        (hl y (List.mem_filterMap.mpr ⟨x, hmem, hy⟩) hgone)
      obtain ⟨w'', hfail, -⟩ := hbroken.users
      exact nomatch congrArg Prod.fst (hrun.symm.trans hfail)
  · intro hpeople
    obtain ⟨xs, htraced⟩ := h.traces hv hve (.inr hpeople)
    obtain ⟨w', hrun, -⟩ := htraced.users
    exact ⟨xs, w', hrun, htraced.exist_iff.mpr hpeople⟩

end Walks

/-! ## Deletions -/

section Deletion

variable {ba bb : BasicBlock} {a : BlockRef} {ea : BlockEntry} {w w' : World Recorders}

/-- A deletion leaves the uses as they were recorded. -/
theorem user?_of_deleted (h : Deleted ba a ea w w') :
    (w'.graph ba.value.context.library).user? = (w.graph ba.value.context.library).user? := by
  obtain ⟨values, blocks, layouts, hg⟩ := h.others
  rw [hg]
  rfl

/-- All users still live just when none of them was destroyed. -/
theorem peopled_iff_of_deleted (h : Deleted ba a ea w w') {us : List UseRef}
    (hp : (w.graph ba.value.context.library).Peopled us) :
    (w'.graph ba.value.context.library).Peopled us ↔
      ∀ y ∈ us.filterMap (w.graph ba.value.context.library).user?, y ∉ ea.doomed := by
  rw [Graph.Peopled, user?_of_deleted h]
  refine forall₂_congr fun y hy => ?_
  rw [Table.contains, h.values]
  by_cases hd : y ∈ ea.doomed
  · simp [hd]
  · rw [if_neg hd]
    exact iff_of_true (hp y hy) hd

/-- What was destroyed has no wrapper any more in the context of the deletion. -/
theorem unseen_of_deleted {log : List Forgetting} (hw : Ready log w') (h : Deleted ba a ea w w')
    {y : ValueRef} (hy : y ∈ ea.doomed) : Unseen log ba.value.context y w'.held := by
  intro y' hm hshows
  obtain ⟨names, hs⟩ := hw.sound
  have hplace : (Reference.value y').place? = some ⟨ba.value.context.id, .value, y.address⟩ := by
    rw [← hshows.context, ← hshows.handle]
    rfl
  have ho := hs.stands _ hm _ hplace hshows.unforgotten
  rw [h.forgot.occupant?, if_pos ⟨rfl, rfl, hy⟩] at ho
  exact nomatch ho

/-- What the deletion of the block `a` through a context has left of the walks over the uses `us` of
another block, where the values `doomed` were destroyed. -/
structure Severed (cx : Context) (a : BlockRef) (doomed : List ValueRef) (bb : BasicBlock)
    (us : List UseRef) (u u' : Shapes) : Prop where
  /-- The block has kept its uses, also those by what was destroyed. -/
  uses : ∃ ve, (u'.world.graph cx.library).values.get? bb.value.handle = some ve ∧ ve.uses = us
  /-- Walks that return are exact; and the blocks that they find after the deletion are those found
  before it, in their order, without the deleted one. -/
  before : bb.value.context.options.unknownValues = .tolerate ∨
    (u.world.graph cx.library).Peopled us → ∃ xs, Traced u.machine.log bb.value us xs u.world
  after : bb.value.context.options.unknownValues = .tolerate ∨
    (u'.world.graph cx.library).Peopled us → ∃ xs, Traced u'.machine.log bb.value us xs u'.world
  ended : ∀ policy, (u'.world.graph cx.library).endedBy policy us =
    ((u.world.graph cx.library).endedBy policy us).filter (· != a)
  /-- In the context of the deletion, they break off at the first user that was destroyed, -/
  broken : bb.value.context = cx → cx.options.unknownValues = .reject →
    ∀ pre x post y, us = pre ++ x :: post → (u'.world.graph cx.library).Peopled pre →
      (u.world.graph cx.library).user? x = some y → y ∈ doomed →
      Broken bb.value (.drift (.unclassifiedValue y)) u'.world
  /-- and so users come, and all of them exist, just when none was destroyed. -/
  safe_iff : bb.value.context = cx → (u.world.graph cx.library).Peopled us →
    ((∃ xs w', (Operation.users bb.value).action.apply u'.world = (.ok xs, w') ∧
      ∀ x ∈ xs, (u'.world.graph cx.library).values.contains x.handle = true) ↔
        ∀ y ∈ us.filterMap (u.world.graph cx.library).user?, y ∉ doomed)

/-- In every state where only branches use anything, the deletion of a living block leads to such a
state, and it is known what it leaves of the walks over the uses of any other block. -/
theorem Branched.severed (h : Branched u) (hba : .value ba.value ∈ u.machine.user)
    (ha : (u.world.graph ba.value.context.library).blocks.get? a = some ea)
    (hva : ea.value = ba.value.handle) :
    ∃ u', Branched u' ∧ (Operation.delete ba).action.apply u.world = (.ok (), u'.world) ∧
      Deleted ba a ea u.world u'.world ∧
      ∀ (bb : BasicBlock) (b : BlockRef) (eb : BlockEntry) (ve : Memory.ValueEntry),
        .value bb.value ∈ u.world.held → bb.value.context.library = ba.value.context.library →
        (u.world.graph ba.value.context.library).blocks.get? b = some eb →
        eb.value = bb.value.handle → b ≠ a →
        (u.world.graph ba.value.context.library).values.get? eb.value = some ve →
          Severed ba.value.context a ea.doomed bb ve.uses u u' := by
  have hready := h.linked.reachable.ready
  have hheld : .value ba.value ∈ u.world.held :=
    h.linked.reachable.kept.machine.accounted.held.symm.subset (List.mem_append_left _ hba)
  have hg := hready.shaped.graph ba.value.context.library
  obtain ⟨u', hu', hw'⟩ := h.delete hba
  obtain ⟨w', hrun, hdel⟩ := hready.shaped.delete (hready.placed _) hheld ha hva
  obtain ⟨w'', hrun', -, hrec, -⟩ := hready.shaped.apply_delete hheld ha hva
  obtain rfl : w'' = w' := congrArg Prod.snd (hrun'.symm.trans hrun)
  obtain rfl : u'.world = w'' := hw'.trans (congrArg Prod.snd hrun)
  have hgraph : u'.world.graph ba.value.context.library =
      (u.world.graph ba.value.context.library).deleteBlock a := congrArg Recorder.graph hrec
  refine ⟨u', hu', hrun, hdel, fun bb b eb ve hbb hlib hb hv hne hve => ?_⟩
  have hbb' : .value bb.value ∈ u'.world.held := hdel.forgot.held ▸ hbb
  have hve' : (u'.world.graph ba.value.context.library).values.get? eb.value = some ve := by
    rw [hdel.values, if_neg (Graph.not_mem_doomed hg ha hb hne _ List.mem_cons_self), hve]
  rw [hv] at hve hve'
  have huses : ∃ ve', (u'.world.graph ba.value.context.library).values.get? bb.value.handle =
      some ve' ∧ ve'.uses = ve.uses := ⟨ve, hve', rfl⟩
  have hended (policy : UnknownValues) := Graph.endedBy_deleteBlock hg ha policy ve.uses
  rw [← hgraph] at hended
  rw [← hlib] at hve hve'
  have hunseen {y : ValueRef} (hcx : bb.value.context = ba.value.context) (hy : y ∈ ea.doomed) :
      Unseen u'.machine.log bb.value.context y u'.world.held :=
    hcx ▸ unseen_of_deleted hu'.linked.reachable.ready hdel hy
  refine ⟨huses, fun hp => ?_, fun hp => ?_, hended, ?_, fun hcx hp => ?_⟩
  · exact h.traces hbb hve (by rwa [hlib])
  · exact hu'.traces hbb' hve' (by rwa [hlib])
  · intro hcx hr pre x post y hus hp hy hd
    refine hu'.breaks hbb' hve' (hcx ▸ hr) hus (by rwa [hlib]) ?_ ?_ (hunseen hcx hd)
    · rw [hlib, user?_of_deleted hdel, hy]
    · rw [hlib, hdel.values, if_pos hd]
  · rw [← peopled_iff_of_deleted hdel hp, ← hlib]
    refine hu'.shows_iff hbb' hve' fun y hy hgone => hunseen hcx ?_
    -- What is gone now was there, so it was destroyed.
    rw [hlib, user?_of_deleted hdel] at hy
    rw [hlib, hdel.values] at hgone
    by_contra hd
    obtain ⟨ye, hye⟩ := Graph.contains_iff.mp (hp y hy)
    rw [if_neg hd, hye] at hgone
    exact nomatch hgone

end Deletion

/-- A block that two other blocks branch to, and wrappers of it and of the first of these. -/
def twoPredecessors : List MemoryMove :=
  let address (n : Nat) : Nat := Memory.Graph.baseAddress + n * Memory.Graph.stride
  let cx : Context := ⟨0, ⟨0⟩, ⟨address 12⟩, true, {}⟩
  [.build ⟨0⟩ .function, .build ⟨0⟩ (.appendBlock ⟨address 1⟩ "doomed"),
    .build ⟨0⟩ (.appendBlock ⟨address 1⟩ "other"), .build ⟨0⟩ (.appendBlock ⟨address 1⟩ "exit"),
    .build ⟨0⟩ (.branch ⟨address 3⟩ [⟨address 7⟩]),
    .build ⟨0⟩ (.branch ⟨address 5⟩ [⟨address 7⟩])] ++
    MemoryMove.serve (.createContext ⟨0⟩ {}) ++
    MemoryMove.serve (.internBlock (.context cx) ⟨address 3⟩) ++
    MemoryMove.serve (.internBlock (.context cx) ⟨address 7⟩)

theorem severed_twoPredecessors :
    let address (n : Nat) : Nat := Memory.Graph.baseAddress + n * Memory.Graph.stride
    let cx : Context := ⟨0, ⟨0⟩, ⟨address 12⟩, true, {}⟩
    let doomed : BasicBlock := ⟨⟨1, cx, ⟨address 2⟩, .ofClass .basicBlock⟩, rfl⟩
    let exit : BasicBlock := ⟨⟨2, cx, ⟨address 6⟩, .ofClass .basicBlock⟩, rfl⟩
    let u := twoPredecessors.foldl next {}
    (u.world.graph ⟨0⟩).endedBy .reject [⟨address 9⟩, ⟨address 11⟩] = [⟨address 3⟩, ⟨address 5⟩] ∧
      ∃ u', Branched u' ∧ (Operation.delete doomed).action.apply u.world = (.ok (), u'.world) ∧
        Severed cx ⟨address 3⟩ [⟨address 2⟩, ⟨address 8⟩] exit [⟨address 9⟩, ⟨address 11⟩] u u' := by
  intro address cx doomed exit u
  have hu : Branched u := Branched.start.moves (by decide +kernel)
  obtain ⟨u', hu', hrun, -, hall⟩ := @Branched.severed u doomed ⟨address 3⟩
    ⟨⟨address 2⟩, ⟨address 1⟩, [⟨address 8⟩]⟩ hu (by decide +kernel) (by decide +kernel) rfl
  refine ⟨by decide +kernel, u', hu', hrun, ?_⟩
  exact hall exit ⟨address 7⟩ ⟨⟨address 6⟩, ⟨address 1⟩, []⟩
    { probes := [.basicBlock], name := "exit", uses := [⟨address 9⟩, ⟨address 11⟩] }
    (by decide +kernel) rfl (by decide +kernel) rfl (by decide +kernel) (by decide +kernel)

/-- After the deletion of one of its predecessors, a living block has neither users nor
predecessors to show. -/
theorem broken_twoPredecessors :
    let address (n : Nat) : Nat := Memory.Graph.baseAddress + n * Memory.Graph.stride
    let cx : Context := ⟨0, ⟨0⟩, ⟨address 12⟩, true, {}⟩
    let doomed : BasicBlock := ⟨⟨1, cx, ⟨address 2⟩, .ofClass .basicBlock⟩, rfl⟩
    let exit : BasicBlock := ⟨⟨2, cx, ⟨address 6⟩, .ofClass .basicBlock⟩, rfl⟩
    let drift : Fault := .drift (.unclassifiedValue ⟨address 8⟩)
    let u := twoPredecessors.foldl next {}
    let w := ((Operation.delete doomed).action.apply u.world).2
    Branched u ∧ ((Operation.delete doomed).action.apply u.world).1 = .ok () ∧
      .value exit.value ∈ w.held ∧ (w.graph ⟨0⟩).blocks.contains ⟨address 7⟩ = true ∧
      ((Operation.users exit.value).action.apply w).1 = .error drift ∧
      ((Operation.predecessors exit).action.apply w).1 = .error drift :=
  ⟨Branched.start.moves (by decide +kernel), by decide +kernel, by decide +kernel,
    by decide +kernel, by decide +kernel, by decide +kernel⟩

end Shapes

end CanonIR
