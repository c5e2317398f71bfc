import CanonIR.Proofs.Freshness.Current
import CanonIR.Proofs.Memory.Growth
import CanonIR.Proofs.Shapes.Shaped

/-!
Grounded worlds: nothing was forgotten, wrappers are current, and the block shape that a wrapper
keeps is the one of the block that its handle denotes, if there is such a block. Proper primitives
keep a world grounded (`Grounded.perform`), and the gates of what lives return it.
-/

namespace CanonIR

instance : IsPreorder Memory.Graph Memory.Graph.Renews where
  refl g := (Memory.Graph.Grows.refl g).toRenews
  trans _ _ _ h h' := h.trans h'

theorem Memory.Graph.persists_renews : Persists Memory.Graph.Renews fun _ => True :=
  fun _ c g _ => g.renews_perform c

/-- The invariant of one context over an in-memory library that deletes nothing. -/
structure Grounded (cx : Context) (w : World Memory.Graph) : Prop where
  current : Current cx [] w
  /-- The other way round than in `Current`: a block that lives has been noted under its handle. -/
  slot : ∀ v b, .value v ∈ w.held → w.blockRefs.get? v.id = some b →
    ∀ b' e, w.native.blocks.get? b' = some e → e.value = v.handle → b = b'

namespace Grounded

variable {cx : Context} {w w' : World Memory.Graph} {v : ValueWrapper} {bb : BasicBlock}

/-- Where nothing was forgotten, whatever is held is canonical. -/
theorem canonical {r : Reference} (hr : r ∈ w.held) : r.Canonical [] w :=
  ⟨hr, fun ⟨_, hf, _⟩ => absurd hf List.not_mem_nil⟩

/-- A held wrapper is of a living value, of the kind that the value is classified as. -/
theorem value_kind (h : Grounded cx w) (hv : .value v ∈ w.held) :
    w.native.values.contains v.handle = true ∧
      w.native.valueKind v.handle cx.options.unknownValues = .ok v.kind :=
  h.current.value_kind v (canonical hv)

/-- Held wrappers of one value are one wrapper. -/
theorem eq_of_handle (h : Grounded cx w) {v' : ValueWrapper} (hv : .value v ∈ w.held)
    (hv' : .value v' ∈ w.held) (hh : v.handle = v'.handle) : v = v' := by
  obtain ⟨names, hs⟩ := h.current.sound
  have hcx : v.context = v'.context :=
    (h.current.owner _ hv).trans (h.current.owner _ hv').symm
  exact hs.identity.value_unique v v' (canonical hv) (canonical hv') (congrArg Context.id hcx) hh

/-- A step that notes no block shape; a wrapper that comes has none. -/
theorem step (h : Grounded cx w) (hc : Current cx [] w') (hr : w.native.Renews w'.native)
    (hb : w'.blockRefs = w.blockRefs)
    (hheld : ∀ v, .value v ∈ w'.held → .value v ∈ w.held ∨ w.blockRefs.get? v.id = none) :
    Grounded cx w' where
  current := hc
  slot v b hv hvb b' e' he' hval := by
    rw [hb] at hvb
    rcases hheld v hv with hm | hn
    · rcases hr.blocks b' e' he' with ⟨e, he, hee⟩ | hnew
      · exact h.slot v b hm hvb b' e he (hee.trans hval)
      · obtain ⟨ve, hve⟩ := Memory.Graph.contains_iff.mp (h.value_kind hm).1
        rw [hval] at hnew
        exact absurd (h.current.graph.value_handed _ ve hve) hnew
    · rw [hn] at hvb
      exact nomatch hvb

/-- The library is changed past the context, and deletes nothing. -/
theorem evolve (h : Grounded cx w) {g : Memory.Graph} (hg : w.native.Evolves g)
    (hr : w.native.Renews g) : Grounded cx { w with native := g } :=
  h.step (h.current.evolve hg) hr rfl fun _ => Or.inl

/-- The block shape of a wrapper is noted, which is the one of the block that it denotes. -/
theorem noteBlockRef (h : Grounded cx w) {b : BlockRef} (hbb : .value bb.value ∈ w.held)
    (hc : Current cx [] (w.noteBlockRef bb b))
    (hb : ∀ b' e, w.native.blocks.get? b' = some e → e.value = bb.value.handle → b = b') :
    Grounded cx (w.noteBlockRef bb b) := by
  refine ⟨hc, fun v b₀ hv hvb b' e he hval => ?_⟩
  rw [World.held_noteBlockRef] at hv
  rw [World.native_noteBlockRef] at he
  unfold World.noteBlockRef at hvb
  split at hvb
  · exact h.slot v b₀ hv hvb b' e he hval
  · rcases Table.get?_of_get?_insert hvb with ⟨hid, rfl⟩ | ⟨-, hvb⟩
    · obtain ⟨names, hs⟩ := h.current.sound
      obtain rfl := Reference.value.inj (hs.eq_of_id_eq hv hbb hid)
      exact hb b' e he hval
    · exact h.slot v b₀ hv hvb b' e he hval

/-! ## Gates -/

/-- What comes from the gate of values is held already, or has no block shape yet. -/
theorem gated (h : Grounded cx w) {p : Place} {x : Option Reference} (hg : Gated cx p w x w')
    (hc : Current cx [] w') (hr : w.native.Renews w'.native) : Grounded cx w' := by
  refine h.step hc hr hg.unnoted.blockRefs fun v hv => ?_
  obtain ⟨names, hs⟩ := h.current.sound
  rw [hg.held] at hv
  rcases List.mem_append.mp hv with hv | hv
  · cases hg with
    | aside ha => exact absurd hv List.not_mem_nil
    | hit ho ha =>
      obtain rfl := List.mem_singleton.mp hv
      exact Or.inl (hs.mem_of_holds ho ha)
    | miss ha hfree h0 hid ho hp he =>
      obtain rfl := List.mem_singleton.mp hv
      obtain ⟨s, e, rfl⟩ := ha
      refine Or.inr ?_
      rw [Option.eq_none_iff_forall_ne_some]
      exact fun b hb => absurd hid (Nat.ne_of_lt (h.current.slot_lt _ b hb))
  · exact Or.inl hv

/-- The gate of values returns the wrapper of a value that can be classified. -/
theorem value_gate (h : Grounded cx w) (hcx : ∃ r ∈ w.held, r.owner = cx) {v : ValueRef}
    {ve : Memory.ValueEntry} {k : ValueKind} (hv : w.native.values.get? v = some ve)
    (hk : w.native.valueKind v cx.options.unknownValues = .ok k) :
    ∃ x w', (Action.internValue cx v).apply w = (.ok (some x), w') ∧
      (x.context = cx ∧ x.handle = v ∧ x.kind = k) ∧
      Grounded cx w' ∧ w'.native = w.native ∧ w'.held = .value x :: w.held := by
  have hn : v.isNull = false :=
    Handle.isNull_eq_false_iff.mpr (h.current.graph.value_handed v ve hv).ne_zero
  obtain ⟨w', hc, hnat, ⟨x, hx, ho, hh, hkind, -⟩ | ⟨f, -, hf⟩⟩ :=
    h.current.value_gate hcx hn (Memory.Graph.contains_iff.mpr ⟨ve, hv⟩)
  · obtain ⟨y, w'', hy, hg⟩ := gated_internValue cx v w
    obtain ⟨rfl, rfl⟩ := Prod.mk.inj (hx.symm.trans hy)
    have hr : w.native.Renews w'.native := hnat ▸ refl_of Memory.Graph.Renews _
    have hk' : x.kind = k := Except.ok.inj (hkind.symm.trans hk)
    exact ⟨x, w', hx, ⟨ho, hh, hk'⟩, h.gated hg hc hr, hnat, hg.held⟩
  · rw [hk] at hf
    exact nomatch hf

/-- The gate of blocks returns the wrapper of a living block. -/
theorem block_gate (h : Grounded cx w) (hcx : ∃ r ∈ w.held, r.owner = cx) {b : BlockRef}
    {e : Memory.BlockEntry} (hb : w.native.blocks.get? b = some e) :
    ∃ bb w', (Action.internBlock cx b).apply w = (.ok (some bb), w') ∧
      (bb.value.context = cx ∧ bb.value.handle = e.value) ∧
      Grounded cx w' ∧ w'.native = w.native ∧ w'.held = .value bb.value :: w.held := by
  obtain ⟨ve, hve, -⟩ := h.current.graph.block_value b e hb
  obtain ⟨x, w', hx, ⟨ho, hh, hk⟩, hw', hnat, hheld⟩ := h.value_gate hcx hve
    (Memory.Graph.valueKind_of_block h.current.graph hb cx.options.unknownValues)
  have hacc : View.basicBlock.accepts x.kind = true := by
    rw [hk]
    rfl
  have hxheld : .value x ∈ w'.held := hheld ▸ List.mem_cons_self
  have hb' : w'.native.blocks.get? b = some e := hnat ▸ hb
  have hnote : Grounded cx (w'.noteBlockRef ⟨x, hacc⟩ b) := by
    refine hw'.noteBlockRef hxheld
      (hw'.current.noteBlockRef hxheld (Or.inr ⟨e, hb', hh.symm⟩)) fun b' e' he' hval => ?_
    exact hw'.current.graph.block_unique b e b' e' hb' he' (hh.symm.trans hval.symm)
  refine ⟨⟨x, hacc⟩, _, internBlock_memory h.current.graph hb hx hacc, ⟨ho, hh⟩, hnote, ?_, ?_⟩
  · rw [World.native_noteBlockRef, hnat]
  · rw [World.held_noteBlockRef, hheld]

/-- The block shape of a held wrapper is the one of the block that it denotes. -/
theorem blockRef (h : Grounded cx w) (hbb : .value bb.value ∈ w.held) :
    ∃ b w', (Action.blockRef bb).apply w = (.ok b, w') ∧ Grounded cx w' ∧ w'.native = w.native ∧
      w'.held = w.held ∧
      ∀ b' e, w.native.blocks.get? b' = some e → e.value = bb.value.handle → b = b' := by
  obtain ⟨b, w', hx, hc, hnat, hheld, -⟩ := h.current.blockRef hbb
  have happly := Action.apply_blockRef (w := w) bb
  cases hb : w.blockRefs.get? bb.value.id with
  | some b₀ =>
    rw [hb] at happly
    obtain ⟨hb', rfl⟩ := Prod.mk.inj (hx.symm.trans happly)
    obtain rfl := Except.ok.inj hb'
    exact ⟨b, w', hx, h, rfl, rfl, h.slot bb.value b hbb hb⟩
  | none =>
    rw [hb] at happly
    obtain ⟨hb', rfl⟩ := Prod.mk.inj (hx.symm.trans happly)
    obtain rfl := Except.ok.inj hb'
    have hval (b' : BlockRef) (e : Memory.BlockEntry) (he : w.native.blocks.get? b' = some e)
        (hv : e.value = bb.value.handle) : w.native.valueAsBlock bb.value.handle = b' := by
      rw [← hv]
      exact Memory.Graph.valueAsBlock_of_get? h.current.graph he
    have hevents (ev : Event) : Grounded cx (w.emit ev) :=
      h.step (h.current.events _) (refl_of Memory.Graph.Renews _) rfl fun _ => Or.inl
    exact ⟨_, _, hx, (hevents _).noteBlockRef hbb hc hval, hnat, hheld, hval⟩

/-! ## Primitives -/

theorem internBlock (h : Grounded cx w) (hcx : ∃ r ∈ w.held, r.owner = cx) {b : BlockRef}
    (hb : b.isNull = true ∨ w.native.blocks.contains b = true) :
    Grounded cx ((Action.internBlock cx b).apply w).2 := by
  by_cases hn : b.isNull = true
  · rw [Action.apply_internBlock_null hn]
    exact h
  · obtain ⟨e, he⟩ := Memory.Graph.contains_iff.mp (hb.resolve_left hn)
    obtain ⟨bb, w', hx, -, hw', -⟩ := h.block_gate hcx he
    rw [hx]
    exact hw'

/-- Every proper primitive keeps a world grounded. -/
theorem perform (h : Grounded cx w) {a : Primitive} (ha : a.Allowed w.held)
    (hp : a.Proper w.native) : Grounded cx (a.action.apply w).2 := by
  obtain ⟨names, hs⟩ := h.current.sound
  have hc := (h.current.perform ha hp).current
  have hr : w.native.Renews (a.action.apply w).2.native :=
    Memory.Graph.persists_renews.perform hs ha fun _ _ => trivial
  have hunnoted (hn : a.notes = false) (hi : ∀ cx v, a ≠ .internValue cx v) :
      Grounded cx (a.action.apply w).2 := by
    obtain ⟨x, w', hx, -, hheld⟩ := hs.perform a ha
    refine h.step hc hr (unnoted_perform hn w).blockRefs fun v hv => Or.inl ?_
    rw [hx] at hv
    exact Primitive.mem_of_mem_after ha hn hi (hheld ▸ hv)
  cases a with
  | internValue cx' v =>
    obtain rfl := h.current.eq_of_owner ha
    obtain ⟨x, w', hx, hg⟩ := gated_internValue cx' v w
    have hx' : (Primitive.internValue cx' v).action.apply w = (x, w') := hx
    rw [hx'] at hc hr ⊢
    exact h.gated hg hc hr
  | internBlock cx' b =>
    obtain rfl := h.current.eq_of_owner ha
    exact h.internBlock ha hp
  | blockRef bb =>
    obtain ⟨b, w', hx, hw', -⟩ := h.blockRef ha
    show Grounded cx ((Action.blockRef bb).apply w).2
    rw [hx]
    exact hw'
  | _ => exact hunnoted rfl fun _ _ heq => nomatch heq

end Grounded

end CanonIR
