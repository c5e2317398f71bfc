import CanonIR.Proofs.Binding.Classify
import CanonIR.Proofs.Binding.Gate
import CanonIR.Proofs.Memory.Deletion

/-!
The kinds of the objects of a graph, as its library has them classified at the moment (`typeKind`,
`valueKind`). A gate over the in-memory library finds the living wrapper, or makes one of that kind,
or fails as the classification does. What deletes nothing changes no kind of a living object.
-/

namespace CanonIR

namespace Memory.Graph

/-- What the classification of a type comes to. -/
def typeKind (g : Graph) (ty : TypeRef) : Except Fault TypeKind :=
  let n := (g.types.get? ty).elim unknownTypeKind (·.kind)
  match TypeKind.ofNumber? n with
  | some k => .ok k
  | none => .error (.drift (.unknownTypeKind ty n))

/-- What the classification of a value comes to. -/
def valueKind (g : Graph) (v : ValueRef) (policy : UnknownValues) : Except Fault ValueKind :=
  kindOf (fun p => g.ofValue v false (·.probes.contains p)) (g.ofValue v 0 (·.opcode)) v policy

variable {g g' : Graph} {ty : TypeRef} {v : ValueRef}

theorem contains_iff {κ α : Type} [DecidableEq κ] {t : Table κ α} {k : κ} :
    t.contains k = true ↔ ∃ a, t.get? k = some a :=
  Option.isSome_iff_exists

/-- Whatever keeps the graph keeps the kinds of its types. -/
theorem Extends.typeKind (h : g.Extends g') (hty : g.types.contains ty = true) :
    g'.types.contains ty = true ∧ g'.typeKind ty = g.typeKind ty := by
  obtain ⟨e, he⟩ := contains_iff.mp hty
  have he' := h.types ty e he
  refine ⟨contains_iff.mpr ⟨e, he'⟩, ?_⟩
  rw [Graph.typeKind, Graph.typeKind, he, he']

/-- Whatever keeps the graph keeps the kinds of its values. -/
theorem Extends.valueKind (h : g.Extends g') (hv : g.values.contains v = true)
    (policy : UnknownValues) :
    g'.values.contains v = true ∧ g'.valueKind v policy = g.valueKind v policy := by
  obtain ⟨e, he⟩ := contains_iff.mp hv
  obtain ⟨e', he', hp, ho⟩ := h.values v e he
  refine ⟨contains_iff.mpr ⟨e', he'⟩, ?_⟩
  simp only [Graph.valueKind, ofValue_of_get? he, ofValue_of_get? he', hp, ho]

/-- The value shape of a living block is classified as a block. -/
theorem valueKind_of_block (h : g.WellFormed) {b : BlockRef} {e : BlockEntry}
    (hb : g.blocks.get? b = some e) (policy : UnknownValues) :
    g.valueKind e.value policy = .ok (.ofClass .basicBlock) := by
  obtain ⟨ve, hve, hp, -⟩ := h.block_value b e hb
  simp only [valueKind, ofValue_of_get? hve, hp]
  rfl

end Memory.Graph

/-! ## Classification -/

theorem apply_classifyType_memory (lib : LibraryId) (ty : TypeRef) (w : World Memory.Graph) :
    (Action.classifyType lib ty).apply w = (w.native.typeKind ty, w) := by
  have hc : (Action.call lib (.typeKind ty)).apply w =
      (.ok ((w.native.types.get? ty).elim Memory.Graph.unknownTypeKind (·.kind)), w) := rfl
  rw [Action.classifyType, Action.apply_bind, hc, Memory.Graph.typeKind]
  dsimp only
  generalize (w.native.types.get? ty).elim Memory.Graph.unknownTypeKind (·.kind) = n
  cases TypeKind.ofNumber? n <;> rfl

theorem apply_classifyValue_memory (lib : LibraryId) (v : ValueRef) (policy : UnknownValues)
    (w : World Memory.Graph) :
    ∃ e, (Action.classifyValue lib v policy).apply w =
      (w.native.valueKind v policy, { w with events := e }) := by
  obtain ⟨s, e, rfl, h⟩ := apply_classifyValue (steady_memory lib v w.native) policy w rfl
  exact ⟨e, h⟩

/-! ## Gates -/

/-- The gate of types over the in-memory library. -/
theorem internType_memory (cx : Context) (w : World Memory.Graph) {h : TypeRef}
    (hn : h.isNull = false) :
    (∃ t, (w.cachesOf cx).types.lookup w.typeAlive h.address = some t ∧
      (Action.internType cx h).apply w = (.ok (some t), w.hold (.type t))) ∨
    (∃ kind e, w.native.typeKind h = .ok kind ∧
      let t : TypeWrapper := ⟨w.nextId, cx, h, kind⟩
      (Action.internType cx h).apply w =
        (.ok (some t), (World.made (.type t) { w with events := e }).enterType t)) ∨
    (∃ f, w.native.typeKind h = .error f ∧ (Action.internType cx h).apply w = (.error f, w)) := by
  cases hl : (w.cachesOf cx).types.lookup w.typeAlive h.address with
  | some t => exact Or.inl ⟨t, rfl, Action.apply_internType_hit hn hl⟩
  | none =>
    have hm := Action.apply_internType_miss hn hl
    rw [apply_classifyType_memory] at hm
    cases hk : w.native.typeKind h with
    | ok kind =>
      rw [hk] at hm
      exact Or.inr (Or.inl ⟨kind, _, rfl, hm⟩)
    | error f =>
      rw [hk] at hm
      exact Or.inr (Or.inr ⟨f, rfl, hm⟩)

/-- The gate of values in a library that is steady about the value. -/
theorem internValue_steady {σ : Type} [NativeSystem σ] {I : σ → Prop} {cx : Context} {h : ValueRef}
    {S : Probe → Bool} {n : Nat} (hS : Steady I cx.library h S n) {w : World σ} (hw : I w.native)
    (hn : h.isNull = false) :
    (∃ v, (w.cachesOf cx).values.lookup w.valueAlive h.address = some v ∧
      (Action.internValue cx h).apply w = (.ok (some v), w.hold (.value v))) ∨
    (∃ kind s e, I s ∧ kindOf S n h cx.options.unknownValues = .ok kind ∧
      let v : ValueWrapper := ⟨w.nextId, cx, h, kind⟩
      (Action.internValue cx h).apply w =
        (.ok (some v), (World.made (.value v) { w with native := s, events := e }).enterValue v)) ∨
    (∃ f s e, I s ∧ kindOf S n h cx.options.unknownValues = .error f ∧
      (Action.internValue cx h).apply w = (.error f, { w with native := s, events := e })) := by
  cases hl : (w.cachesOf cx).values.lookup w.valueAlive h.address with
  | some v => exact Or.inl ⟨v, rfl, Action.apply_internValue_hit hn hl⟩
  | none =>
    have hm := Action.apply_internValue_miss hn hl
    obtain ⟨s, e, hI, he⟩ := apply_classifyValue hS cx.options.unknownValues w hw
    rw [he] at hm
    cases hk : kindOf S n h cx.options.unknownValues with
    | ok kind =>
      rw [hk] at hm
      exact Or.inr (Or.inl ⟨kind, s, _, hI, rfl, hm⟩)
    | error f =>
      rw [hk] at hm
      exact Or.inr (Or.inr ⟨f, s, e, hI, rfl, hm⟩)

/-- The gate of values over the in-memory library. -/
theorem internValue_memory (cx : Context) (w : World Memory.Graph) {h : ValueRef}
    (hn : h.isNull = false) :
    (∃ v, (w.cachesOf cx).values.lookup w.valueAlive h.address = some v ∧
      (Action.internValue cx h).apply w = (.ok (some v), w.hold (.value v))) ∨
    (∃ kind e, w.native.valueKind h cx.options.unknownValues = .ok kind ∧
      let v : ValueWrapper := ⟨w.nextId, cx, h, kind⟩
      (Action.internValue cx h).apply w =
        (.ok (some v), (World.made (.value v) { w with events := e }).enterValue v)) ∨
    (∃ f e, w.native.valueKind h cx.options.unknownValues = .error f ∧
      (Action.internValue cx h).apply w = (.error f, { w with events := e })) := by
  rcases internValue_steady (steady_memory cx.library h w.native) (w := w) rfl hn with
    hit | ⟨kind, s, e, rfl, hk, ha⟩ | ⟨f, s, e, rfl, hk, ha⟩
  · exact Or.inl hit
  · exact Or.inr (Or.inl ⟨kind, e, hk, ha⟩)
  · exact Or.inr (Or.inr ⟨f, e, hk, ha⟩)

/-- The gate of blocks over the in-memory library, where the gate of values returns a block. -/
theorem internBlock_memory {cx : Context} {w w' : World Memory.Graph} (hg : w.native.WellFormed)
    {b : BlockRef} {e : Memory.BlockEntry} (hb : w.native.blocks.get? b = some e)
    {x : ValueWrapper} (hx : (Action.internValue cx e.value).apply w = (.ok (some x), w'))
    (hk : View.basicBlock.accepts x.kind = true) :
    (Action.internBlock cx b).apply w = (.ok (some ⟨x, hk⟩), w'.noteBlockRef ⟨x, hk⟩ b) := by
  have hn : b.isNull = false := Handle.isNull_eq_false_iff.mpr (hg.block_handed b e hb).ne_zero
  have hask : (Action.call cx.library (.blockAsValue b)).apply w = (.ok e.value, w) := by
    have hval : w.native.blockValue b = e.value := by rw [Memory.Graph.blockValue, hb]; rfl
    rw [← hval]
    rfl
  have hd : x.downcast? .basicBlock = some ⟨x, hk⟩ := dif_pos hk
  rw [Action.apply_internBlock hn, hask]
  dsimp only
  rw [Action.apply_blockOf, hx]
  dsimp only
  rw [hd]

end CanonIR
