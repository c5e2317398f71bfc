import CanonIR.Proofs.Memory.Housed
import CanonIR.Proofs.Shapes.InStep

/-!
Kinds that do not age. The kind of a wrapper is found once. Over in-memory libraries it may go out of
date where an address is used again, if the binding has not been told; but a value that stands in a
block was made there and keeps its properties, so the kind of a wrapper of such a value is always
the one that the library would give now (`Shapes.Reachable.kinded`).
-/

namespace CanonIR

open Memory (Graph)

namespace Recorder

/-- The values that stand in blocks in the graph of the one stand there in that of the other. -/
def Houses (r r' : Recorder) : Prop := r.graph.Houses r'.graph

instance : IsPreorder Recorder Houses where
  refl r := .refl r.graph
  trans _ _ _ h h' := Graph.Houses.trans h h'

theorem houses_perform (r : Recorder) (c : Call) : r.Houses (r.perform c).2 := by
  rw [Houses, graph_perform]
  exact r.graph.houses_perform c

end Recorder

/-- Only the probes and the opcode of a value decide its kind. -/
theorem Memory.Graph.valueKind_congr {g g' : Graph} {v : ValueRef} {ve ve' : Memory.ValueEntry}
    (hve : g.values.get? v = some ve) (hve' : g'.values.get? v = some ve')
    (hp : ve.probes = ve'.probes) (ho : ve.opcode = ve'.opcode) (policy : UnknownValues) :
    g.valueKind v policy = g'.valueKind v policy := by
  simp only [valueKind, ofValue_of_get? hve, ofValue_of_get? hve', hp, ho]

namespace World

/-- The kind of a wrapper is up to date, if its value stands in a block. -/
def Apt (w : World Recorders) (v : ValueWrapper) : Prop :=
  ∀ ve, (w.graph v.context.library).values.get? v.handle = some ve → ve.parent ≠ .null →
    (w.graph v.context.library).valueKind v.handle v.context.options.unknownValues = .ok v.kind

/-- The kinds of all wrappers are, as far as their values stand in blocks. -/
def Kinded (w : World Recorders) : Prop := ∀ v, .value v ∈ w.held → w.Apt v

variable {w w' : World Recorders} {v : ValueWrapper} {b : BlockRef}

theorem Apt.of_houses (h : w.Apt v) (hn : Recorders.Each Recorder.Houses w.native w'.native)
    (hv : (w.graph v.context.library).Handed v.handle.address) : w'.Apt v := by
  intro ve' hve' hp
  rcases (hn v.context.library).values _ ve' hve' hp with ⟨ve, hve, hpar, hprobes, hop⟩ | hnew
  · rw [← Graph.valueKind_congr hve hve' hprobes hop]
    exact h ve hve (hpar ▸ hp)
  · exact absurd hv hnew

/-- The value shape of a block stands in no block. -/
theorem Denotes.apt (hd : w.Denotes v b) (hg : (w.graph v.context.library).WellFormed) :
    w.Apt v := by
  obtain ⟨e, he, hval⟩ := hd
  intro ve hve hp
  obtain ⟨ve', hve', -, hnull⟩ := hg.block_value b e he
  rw [hval, hve] at hve'
  obtain rfl := Option.some.inj hve'
  exact absurd hnull hp

/-- The wrappers that have come are apt. -/
theorem Kinded.step (h : w.Kinded) (hw : Shaped w)
    (hn : Recorders.Each Recorder.Houses w.native w'.native)
    (hheld : ∀ v, .value v ∈ w'.held → .value v ∈ w.held ∨ w'.Apt v) : w'.Kinded := by
  intro v hv
  rcases hheld v hv with hv | ha
  · exact (h v hv).of_houses hn (hw.fits v hv).handed
  · exact ha

/-- The gate of values makes wrappers of the kind that the library gives. -/
theorem Kinded.internValue (h : w.Kinded) (hw : Shaped w) {names : Nat → Reference}
    {log : List Forgetting} (hs : Sound names log w) (cx : Context) (v : ValueRef) :
    Kinded ((Action.internValue cx v).apply w).2 := by
  have hhouses {s : Recorders} (hns : w.native.Noted s) :
      Recorders.Each Recorder.Houses w.native s := fun lib =>
    .of_eq (Nat.le_of_eq (congrArg (·.allocated) (hns.graph lib)).symm)
      (congrArg (·.values) (hns.graph lib))
  cases hn : v.isNull with
  | true =>
    rw [Action.apply_internValue_null hn]
    exact h
  | false =>
    rcases internValue_steady (Recorders.steady (hw.unforced cx.library) v) (w := w)
        (refl_of Recorders.Noted _) hn with
      ⟨y, hl, ha⟩ | ⟨kind, s, e, hns, hk, ha⟩ | ⟨f, s, e, hns, -, ha⟩
    · obtain ⟨ho, hlive⟩ := lookup_values_eq_some_iff.mp hl
      rw [ha]
      refine h.step hw (refl_of (Recorders.Each Recorder.Houses) _) fun x hx => Or.inl ?_
      rcases List.mem_cons.mp hx with hx | hx
      · exact hx ▸ hs.mem_of_holds ho hlive
      · exact hx
    · rw [ha]
      refine h.step hw (hhouses hns) fun x hx => ?_
      rcases List.mem_cons.mp hx with hx | hx
      · obtain rfl := Reference.value.inj hx
        refine Or.inr fun ve _ _ => ?_
        have hgraph : (s.recorder cx.library).graph = w.graph cx.library := hns.graph cx.library
        show (s.recorder cx.library).graph.valueKind v cx.options.unknownValues = .ok kind
        rw [hgraph]
        exact hk
      · exact Or.inl hx
    · rw [ha]
      exact h.step hw (hhouses hns) fun _ => Or.inl

/-- Every primitive keeps the kinds, if the gates of blocks are given null or living handles. -/
theorem Kinded.perform (h : w.Kinded) (hw : Shaped w) {names : Nat → Reference}
    {log : List Forgetting} (hs : Sound names log w) {a : Primitive} (ha : a.Allowed w.held)
    (hg : a.Given w.native) : Kinded (a.action.apply w).2 := by
  have hnative : Recorders.Each Recorder.Houses w.native (a.action.apply w).2.native :=
    (Recorders.persists_each fun r c _ => r.houses_perform c).perform (K := fun _ => True) hs ha
      fun _ _ => trivial
  obtain ⟨x, w', hx, -, hheld⟩ := hs.perform a ha
  cases a with
  | internValue cx v => exact h.internValue hw hs cx v
  | internBlock cx b =>
    by_cases hn : b.isNull = true
    · show Kinded ((Action.internBlock cx b).apply w).2
      rw [Action.apply_internBlock_null hn]
      exact h
    · obtain ⟨e, he⟩ := Memory.Graph.contains_iff.mp (hg.resolve_left hn)
      obtain ⟨bb, w₁, -, hblock, hmet, -⟩ := hw.block_gates hs ha he
      obtain ⟨rfl, rfl⟩ := Prod.mk.inj (hx.symm.trans hblock)
      rw [hx] at hnative ⊢
      refine h.step hw hnative fun v hv => ?_
      rw [hheld] at hv
      rcases List.mem_cons.mp hv with hv | hv
      · obtain rfl := Reference.value.inj hv
        exact Or.inr (hmet.noteBlockRef.denotes.apt (hmet.noteBlockRef.shaped.graph _))
      · exact Or.inl hv
  | blockRef bb =>
    rw [hx] at hnative ⊢
    refine h.step hw hnative fun v hv => Or.inl ?_
    rw [hheld] at hv
    cases x with
    | error f => exact hv
    | ok b => exact hv
  | _ =>
    rw [hx] at hnative ⊢
    refine h.step hw hnative fun v hv => Or.inl ?_
    exact Primitive.mem_of_mem_after ha rfl (fun _ _ heq => nomatch heq) (hheld ▸ hv)

end World

namespace Shapes

variable {u : Shapes}

/-- In every state that is reached the kinds of wrappers are up to date, as far as their values
stand in blocks. -/
theorem Reachable.kinded (h : Reachable u) : u.world.Kinded := by
  induction h with
  | start => exact fun v hv => nomatch hv
  | @move u h x hx ih =>
    have hn := h.kept.each hx (R := Recorder.Houses)
      (fun lib c _ r => c.houses r.graph)
      (fun _ dead probes _ r => r.graph.houses_reuse dead probes)
      Recorder.houses_perform
    rcases h.kept.step hx with ⟨a, ha, -, hg, hw, -⟩ | ⟨s, -, -, hw, -⟩
    · obtain ⟨names, hs⟩ := h.kept.machine.accounted.sound
      rw [hw]
      exact ih.perform h.kept.shaped hs ha hg
    · rw [hw] at hn ⊢
      exact ih.step h.kept.shaped hn fun _ => Or.inl

end Shapes

end CanonIR
