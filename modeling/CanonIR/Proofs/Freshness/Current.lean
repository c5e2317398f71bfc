import CanonIR.Proofs.Identity.Canonical
import CanonIR.Proofs.Identity.Primitive
import CanonIR.Proofs.Memory.Kind

/-!
Current wrappers. Over the in-memory library, with one context, the invariant `Current` says that
every canonical wrapper has the kind that the classification of its handle comes to at the moment,
and that a block shape that a wrapper keeps is the one of its value, if it denotes a block at all.
-/

namespace CanonIR

/-- The invariant of one context over the in-memory library. -/
structure Current (cx : Context) (log : List Forgetting) (w : World Memory.Graph) : Prop where
  sound : ∃ names, Sound names log w
  graph : w.native.WellFormed
  owner : ∀ r ∈ w.held, r.owner = cx
  type_kind : ∀ t, .type t ∈ w.held →
    w.native.types.contains t.handle = true ∧ w.native.typeKind t.handle = .ok t.kind
  value_kind : ∀ v, (Reference.value v).Canonical log w →
    w.native.values.contains v.handle = true ∧
      w.native.valueKind v.handle cx.options.unknownValues = .ok v.kind
  slot_lt : ∀ i b, w.blockRefs.get? i = some b → i < w.nextId
  slot : ∀ v b, .value v ∈ w.held → w.blockRefs.get? v.id = some b →
    b = .null ∨ w.native.Handed b.address ∧
      ∀ e, w.native.blocks.get? b = some e → e.value = v.handle

namespace Current

variable {cx : Context} {log : List Forgetting} {w w' : World Memory.Graph} {r : Reference}

/-! ## Changes of the state -/

/-- A change of the library that deletes nothing. -/
theorem evolve (h : Current cx log w) {g : Memory.Graph} (hg : w.native.Evolves g) :
    Current cx log { w with native := g } where
  sound := by
    obtain ⟨names, hs⟩ := h.sound
    exact ⟨names, hs.congr rfl rfl rfl rfl⟩
  graph := hg.wellFormed
  owner := h.owner
  type_kind t ht := by
    obtain ⟨hc, hk⟩ := h.type_kind t ht
    obtain ⟨hc', hk'⟩ := hg.keeps.typeKind hc
    exact ⟨hc', hk'.trans hk⟩
  value_kind v hv := by
    obtain ⟨hc, hk⟩ := h.value_kind v hv
    obtain ⟨hc', hk'⟩ := hg.keeps.valueKind hc cx.options.unknownValues
    exact ⟨hc', hk'.trans hk⟩
  slot_lt := h.slot_lt
  slot v b hv hb := by
    rcases h.slot v b hv hb with hn | ⟨hh, hval⟩
    · exact Or.inl hn
    · refine Or.inr ⟨hh.mono hg.keeps.allocated_le, fun e' he' => ?_⟩
      obtain ⟨e, he, hee⟩ := hg.keeps.blocks b e' he' hh
      exact hee.trans (hval e he)

/-- What a reference that comes to the held ones has to be. -/
def Fits (cx : Context) (w : World Memory.Graph) (r : Reference) : Prop :=
  r.owner = cx ∧
    match r with
    | .context _ => True
    | .type t =>
      w.native.types.contains t.handle = true ∧ w.native.typeKind t.handle = .ok t.kind
    | .value v =>
      (w.native.values.contains v.handle = true ∧
        w.native.valueKind v.handle cx.options.unknownValues = .ok v.kind) ∧
      w.blockRefs.get? v.id = none

/-- References come and go, and the library stays. -/
theorem refer (h : Current cx log w) (hs : ∃ names, Sound names log w')
    (hn : w'.native = w.native) (hb : w'.blockRefs = w.blockRefs) (hid : w.nextId ≤ w'.nextId)
    (hheld : ∀ r ∈ w'.held, r ∈ w.held ∨ Fits cx w r) : Current cx log w' := by
  refine ⟨hs, hn ▸ h.graph, ?_, ?_, ?_, ?_, ?_⟩
  · intro r hr
    exact (hheld r hr).elim (h.owner r) fun hf => hf.1
  · rw [hn]
    exact fun t ht => (hheld _ ht).elim (h.type_kind t) fun hf => hf.2
  · rw [hn]
    intro v hv
    exact (hheld _ hv.1).elim (fun hm => h.value_kind v ⟨hm, hv.2⟩) fun hf => hf.2.1
  · rw [hb]
    exact fun i b hi => Nat.lt_of_lt_of_le (h.slot_lt i b hi) hid
  · rw [hb, hn]
    intro v b hv hvb
    rcases hheld _ hv with hm | hf
    · exact h.slot v b hm hvb
    · rw [hf.2.2] at hvb
      exact nomatch hvb

theorem events (h : Current cx log w) (e : Array Event) : Current cx log { w with events := e } := by
  obtain ⟨names, hs⟩ := h.sound
  exact h.refer ⟨names, hs.congr rfl rfl rfl rfl⟩ rfl rfl (Nat.le_refl _) fun r hr => Or.inl hr

theorem congr_log (h : Current cx log w) {log' : List Forgetting}
    (hl : ∀ f, f ∈ log' ↔ f ∈ log) : Current cx log' w := by
  obtain ⟨names, hs⟩ := h.sound
  have hf (r : Reference) : r.Forgotten log' ↔ r.Forgotten log :=
    exists_congr fun f => and_congr_left' (hl f)
  exact { h with
    sound := ⟨names, hs.congr_log hl⟩
    value_kind := fun v hv => h.value_kind v ⟨hv.1, fun hn => hv.2 ((hf _).mpr hn)⟩ }

/-- Only the context has a name, so whoever is held belongs to it. -/
theorem eq_of_owner (h : Current cx log w) {cx' : Context} (hr : ∃ r ∈ w.held, r.owner = cx') :
    cx' = cx := by
  obtain ⟨r, hr, rfl⟩ := hr
  exact h.owner r hr

/-- Noting the block shape of a held wrapper, which is null or denotes the block of the wrapper. -/
theorem noteBlockRef (h : Current cx log w) {bb : BasicBlock} {b : BlockRef}
    (hbb : .value bb.value ∈ w.held)
    (hb : b = .null ∨ ∃ e, w.native.blocks.get? b = some e ∧ e.value = bb.value.handle) :
    Current cx log (w.noteBlockRef bb b) := by
  obtain ⟨names, hs⟩ := h.sound
  have hs' := hs.noteBlockRef bb b
  unfold World.noteBlockRef at hs' ⊢
  split
  · exact h
  · next hc =>
    rw [if_neg hc] at hs'
    refine { h with sound := ⟨names, hs'⟩, slot_lt := ?_, slot := ?_ }
    · intro i b' hi
      rcases Table.get?_of_get?_insert hi with ⟨rfl, -⟩ | ⟨-, hi⟩
      · exact (hs.held_named _ hbb).lt
      · exact h.slot_lt i b' hi
    · intro v b' hv hi
      rcases Table.get?_of_get?_insert hi with ⟨hid, rfl⟩ | ⟨-, hi⟩
      · obtain rfl := Reference.value.inj (hs.eq_of_id_eq hv hbb hid)
        rcases hb with hn | ⟨e, he, hval⟩
        · exact Or.inl hn
        refine Or.inr ⟨h.graph.block_handed b' e he, fun e' he' => ?_⟩
        obtain rfl := Option.some.inj (he.symm.trans he')
        exact hval
      · exact h.slot v b' hv hi

/-- Forgetting a value makes wrappers less canonical, which asks less of them. -/
theorem forgetValue (h : Current cx log w) (v : ValueRef) :
    Current cx (⟨cx.id, v, w.nextId⟩ :: log) (w.forgetValue cx v) := by
  obtain ⟨names, hs⟩ := h.sound
  exact { h with
    sound := ⟨names, hs.forget cx v⟩
    value_kind := fun v' hv' => by
      refine h.value_kind v' ⟨hv'.1, fun hf => hv'.2 ?_⟩
      exact Reference.forgotten_cons.mpr (Or.inr hf) }

theorem hold (h : Current cx log w) (hr : r ∈ w.held ∨ ∃ r' ∈ w.held, r = .context r'.owner) :
    Current cx log (w.hold r) := by
  obtain ⟨names, hs⟩ := h.sound
  refine h.refer ⟨names, hs.hold hr⟩ rfl rfl (Nat.le_refl _) fun r' hr' => ?_
  rcases List.mem_cons.mp hr' with rfl | hr'
  · refine hr.imp_right fun ⟨r'', hr'', ho⟩ => ?_
    rw [ho]
    exact ⟨h.owner r'' hr'', trivial⟩
  · exact Or.inl hr'

/-! ## Gates -/

/-- The gate of types returns a wrapper of the current kind, or fails as the classification does. -/
theorem type_gate (h : Current cx log w) (hcx : ∃ r ∈ w.held, r.owner = cx) {ty : TypeRef}
    (hn : ty.isNull = false) (hty : w.native.types.contains ty = true) :
    ∃ w', Current cx log w' ∧ w'.native = w.native ∧
      ((∃ t, (Action.internType cx ty).apply w = (.ok (some t), w') ∧ t.context = cx ∧
          t.handle = ty ∧ w.native.typeKind ty = .ok t.kind) ∨
        ∃ f, (Action.internType cx ty).apply w = (.error f, w') ∧
          w.native.typeKind ty = .error f) := by
  obtain ⟨names, hs⟩ := h.sound
  obtain ⟨x, w', hx, hsound, -⟩ := performs_internType hs hcx ty
  rcases internType_memory cx w hn with
    ⟨t, hl, ha⟩ | ⟨kind, e, hk, ha⟩ | ⟨f, hk, ha⟩
  · obtain ⟨ho, hh⟩ := World.lookup_types_eq_some_iff.mp hl
    have hm := hs.mem_of_holds ho hh
    have hhandle : t.handle = ty :=
      congrArg Handle.mk (Place.mk.inj (Option.some.inj (hs.place _ _ ho).1)).2.2
    refine ⟨_, h.hold (Or.inl hm), rfl, Or.inl ⟨t, ha, h.owner _ hm, hhandle, ?_⟩⟩
    exact hhandle ▸ (h.type_kind t hm).2
  · have hw : w' = _ := congrArg Prod.snd (hx.symm.trans ha)
    subst hw
    refine ⟨_, h.refer hsound rfl rfl (Nat.le_succ _) fun r hr => ?_, rfl,
      Or.inl ⟨_, ha, rfl, rfl, hk⟩⟩
    rcases List.mem_cons.mp hr with rfl | hr
    · exact Or.inr ⟨rfl, hty, hk⟩
    · exact Or.inl hr
  · exact ⟨w, h, rfl, Or.inr ⟨f, ha, hk⟩⟩

/-- The gate of values returns a canonical wrapper of the current kind, or fails as the
classification does. -/
theorem value_gate (h : Current cx log w) (hcx : ∃ r ∈ w.held, r.owner = cx) {v : ValueRef}
    (hn : v.isNull = false) (hv : w.native.values.contains v = true) :
    ∃ w', Current cx log w' ∧ w'.native = w.native ∧
      ((∃ x, (Action.internValue cx v).apply w = (.ok (some x), w') ∧ x.context = cx ∧
          x.handle = v ∧ w.native.valueKind v cx.options.unknownValues = .ok x.kind ∧
          (Reference.value x).Canonical log w') ∨
        ∃ f, (Action.internValue cx v).apply w = (.error f, w') ∧
          w.native.valueKind v cx.options.unknownValues = .error f) := by
  obtain ⟨names, hs⟩ := h.sound
  obtain ⟨x, w', hx, ⟨names', hs'⟩, -⟩ := performs_internValue hs hcx v
  rcases internValue_memory cx w hn with
    ⟨y, hl, ha⟩ | ⟨kind, e, hk, ha⟩ | ⟨f, e, hk, ha⟩
  · obtain ⟨ho, hh⟩ := World.lookup_values_eq_some_iff.mp hl
    have hm := hs.mem_of_holds ho hh
    have hhandle : y.handle = v :=
      congrArg Handle.mk (Place.mk.inj (Option.some.inj (hs.place _ _ ho).1)).2.2
    refine ⟨_, h.hold (Or.inl hm), rfl, Or.inl ⟨y, ha, h.owner _ hm, hhandle, ?_, ?_⟩⟩
    · exact hhandle ▸ (h.value_kind y ⟨hm, hs.fresh _ _ ho⟩).2
    · exact ⟨List.mem_cons_self, hs.fresh _ _ ho⟩
  · have hw : w' = _ := congrArg Prod.snd (hx.symm.trans ha)
    subst hw
    refine ⟨_, h.refer ⟨names', hs'⟩ rfl rfl (Nat.le_succ _) fun r hr => ?_, rfl,
      Or.inl ⟨_, ha, rfl, rfl, hk, List.mem_cons_self, ?_⟩⟩
    · rcases List.mem_cons.mp hr with rfl | hr
      · refine Or.inr ⟨rfl, ⟨hv, hk⟩, ?_⟩
        rw [Option.eq_none_iff_forall_ne_some]
        exact fun b hb => Nat.lt_irrefl _ (h.slot_lt _ b hb)
      · exact Or.inl hr
    · exact hs'.fresh _ _ (World.entered_enterValue _ _).self
  · exact ⟨_, h.events e, rfl, Or.inr ⟨f, ha, hk⟩⟩

/-- The gate of blocks returns a canonical wrapper of the value shape, which is a block. -/
theorem block_gate (h : Current cx log w) (hcx : ∃ r ∈ w.held, r.owner = cx) {b : BlockRef}
    {e : Memory.BlockEntry} (hb : w.native.blocks.get? b = some e) :
    ∃ w', Current cx log w' ∧ w'.native = w.native ∧
      ∃ bb, (Action.internBlock cx b).apply w = (.ok (some bb), w') ∧ bb.value.context = cx ∧
      bb.value.handle = e.value ∧
      w.native.valueKind e.value cx.options.unknownValues = .ok bb.value.kind ∧
      (Reference.value bb.value).Canonical log w' := by
  obtain ⟨ve, hve, -⟩ := h.graph.block_value b e hb
  have hn : e.value.isNull = false :=
    Handle.isNull_eq_false_iff.mpr (h.graph.value_handed _ ve hve).ne_zero
  have hkind := Memory.Graph.valueKind_of_block h.graph hb cx.options.unknownValues
  obtain ⟨w', hw', hnat, ⟨x, hx, hxcx, hxh, hxk, hxc⟩ | ⟨f, -, hf⟩⟩ :=
    h.value_gate hcx hn (Memory.Graph.contains_iff.mpr ⟨ve, hve⟩)
  · have hacc : View.basicBlock.accepts x.kind = true := by
      rw [hkind] at hxk
      rw [← Except.ok.inj hxk]
      rfl
    have hnote : Current cx log (w'.noteBlockRef ⟨x, hacc⟩ b) :=
      hw'.noteBlockRef hxc.1 (Or.inr ⟨e, by rw [hnat]; exact hb, hxh.symm⟩)
    refine ⟨_, hnote, ?_, ⟨x, hacc⟩, internBlock_memory h.graph hb hx hacc, hxcx, hxh, hxk, ?_,
      hxc.2⟩
    · rw [World.native_noteBlockRef]
      exact hnat
    · rw [World.held_noteBlockRef]
      exact hxc.1
  · rw [hkind] at hf
    exact nomatch hf

/-- The block shape that the library knows of a value. -/
theorem valueAsBlock_eq (g : Memory.Graph) (v : ValueRef) :
    g.valueAsBlock v = .null ∨
      ∃ e, g.blocks.get? (g.valueAsBlock v) = some e ∧ e.value = v := by
  unfold Memory.Graph.valueAsBlock
  cases hf : g.blocks.entries.find? (·.2.value == v) with
  | none => exact Or.inl rfl
  | some p =>
    have hv : p.2.value = v := by simpa using List.find?_some hf
    exact Or.inr ⟨p.2, Table.get?_eq_some_iff.mpr (List.mem_of_find?_eq_some hf), hv⟩

/-- A wrapper's block shape, kept or asked for: if it denotes a block, that is the block of the
wrapper. -/
theorem blockRef (h : Current cx log w) {bb : BasicBlock} (hbb : .value bb.value ∈ w.held) :
    ∃ b w', (Action.blockRef bb).apply w = (.ok b, w') ∧ Current cx log w' ∧
      w'.native = w.native ∧ w'.held = w.held ∧ w'.nextId = w.nextId ∧
      ∀ e, w.native.blocks.get? b = some e → e.value = bb.value.handle := by
  rw [Action.apply_blockRef]
  cases hb : w.blockRefs.get? bb.value.id with
  | some b =>
    refine ⟨b, w, rfl, h, rfl, rfl, rfl, fun e he => ?_⟩
    rcases h.slot bb.value b hbb hb with rfl | ⟨-, hval⟩
    · exact absurd rfl (h.graph.block_handed _ e he).ne_zero
    · exact hval e he
  | none =>
    have hask : (Action.call bb.value.context.library (.valueAsBlock bb.value.handle)).apply w =
        (.ok (w.native.valueAsBlock bb.value.handle), w) := rfl
    rw [hask]
    have hval := valueAsBlock_eq w.native bb.value.handle
    refine ⟨_, _, rfl, (h.events _).noteBlockRef hbb hval, World.native_noteBlockRef _ _ _,
      World.held_noteBlockRef _ _ _, World.nextId_noteBlockRef _ _ _, fun e he => ?_⟩
    rcases hval with hval | ⟨e', he', hval⟩
    · rw [hval] at he
      exact absurd rfl (h.graph.block_handed _ e he).ne_zero
    · exact Option.some.inj (he.symm.trans he') ▸ hval

end Current

/-! ## Primitives -/

/-- Whether a call destroys objects. -/
def Call.deletes : Call → Bool
  | deleteBlock _ => true
  | _ => false

theorem Call.ne_deleteBlock {c : Call} (hc : c.deletes = false) (b : BlockRef) :
    c ≠ .deleteBlock b := by
  rintro rfl
  exact nomatch hc

/-- What the users of one context keep to: a handle that reaches a gate is null or denotes a living
object, and no block is deleted past the bindings. Blocks are deleted as a whole, so there is no
forgetting apart from that. -/
def Primitive.Proper (g : Memory.Graph) : Primitive → Prop
  | .call _ c => c.deletes = false
  | .createContext _ _ | .attachContext _ _ _ | .forgetValue _ _ => False
  | .internType _ ty => ty.isNull = true ∨ g.types.contains ty = true
  | .internValue _ v => v.isNull = true ∨ g.values.contains v = true
  | .internBlock _ b => b.isNull = true ∨ g.blocks.contains b = true
  | _ => True

instance (g : Memory.Graph) (a : Primitive) : Decidable (a.Proper g) :=
  match a with
  | .call _ _ => inferInstanceAs (Decidable (_ = _))
  | .createContext _ _ | .attachContext _ _ _ | .forgetValue _ _ => .isFalse id
  | .internType _ _ | .internValue _ _ | .internBlock _ _ => inferInstanceAs (Decidable (_ ∨ _))
  | .emit _ | .walkLimit _ | .blockRef _ | .hold _ | .release _ => .isTrue trivial

namespace Current

variable {cx : Context} {log : List Forgetting} {w w' : World Memory.Graph}

/-- A current state that comes after another one, with nothing deleted in between. -/
structure Follows (cx : Context) (log : List Forgetting) (w w' : World Memory.Graph) : Prop where
  current : Current cx log w'
  evolves : w.native.Evolves w'.native

theorem follows (h : Current cx log w') (hn : w'.native = w.native) : Follows cx log w w' :=
  ⟨h, hn ▸ .refl h.graph⟩

/-- The end of a context disposes of its native context at most. -/
theorem evolves_retire (w : World Memory.Graph) (h : w.native.WellFormed) (cx : Context) :
    w.native.Evolves (w.retire cx).native := by
  unfold World.retire
  dsimp only
  split
  · exact Memory.Graph.evolves_of_eq h (Nat.le_refl _) rfl rfl rfl
  · exact .refl h

theorem release (h : Current cx log w) (r : Reference) : Follows cx log w (w.release r) := by
  obtain ⟨names, hs⟩ := h.sound
  have hsub : (w.release r).held ⊆ w.held ∧ (w.release r).blockRefs = w.blockRefs ∧
      (w.release r).nextId = w.nextId ∧ w.native.Evolves (w.release r).native := by
    unfold World.release
    split
    · dsimp only
      split
      · exact ⟨List.eraseP_subset, rfl, rfl, .refl h.graph⟩
      · refine ⟨?_, World.blockRefs_retire _ _, World.nextId_retire _ _, ?_⟩
        · rw [World.held_retire]
          exact List.eraseP_subset
        · exact evolves_retire { w with held := w.held.eraseP (·.id == r.id) } h.graph r.owner
    · exact ⟨List.Subset.refl _, rfl, rfl, .refl h.graph⟩
  obtain ⟨hheld, hb, hn, hg⟩ := hsub
  have hstay : Current cx log { w.release r with native := w.native } :=
    h.refer ⟨names, (hs.release r).congr rfl rfl rfl rfl⟩ rfl hb (Nat.le_of_eq hn.symm)
      fun r' hr' => Or.inl (hheld hr')
  exact ⟨hstay.evolve hg, hg⟩

theorem follows_internType (h : Current cx log w) (hcx : ∃ r ∈ w.held, r.owner = cx) {ty : TypeRef}
    (hty : ty.isNull = true ∨ w.native.types.contains ty = true) :
    Follows cx log w ((Action.internType cx ty).apply w).2 := by
  by_cases hn : ty.isNull = true
  · rw [Action.apply_internType_null hn]
    exact h.follows rfl
  · obtain ⟨w', hw', hnat, ⟨t, hx, -⟩ | ⟨f, hx, -⟩⟩ :=
      h.type_gate hcx (eq_false_of_ne_true hn) (hty.resolve_left hn)
    · rw [hx]
      exact hw'.follows hnat
    · rw [hx]
      exact hw'.follows hnat

theorem follows_internValue (h : Current cx log w) (hcx : ∃ r ∈ w.held, r.owner = cx)
    {v : ValueRef} (hv : v.isNull = true ∨ w.native.values.contains v = true) :
    Follows cx log w ((Action.internValue cx v).apply w).2 := by
  by_cases hn : v.isNull = true
  · rw [Action.apply_internValue_null hn]
    exact h.follows rfl
  · obtain ⟨w', hw', hnat, ⟨x, hx, -⟩ | ⟨f, hx, -⟩⟩ :=
      h.value_gate hcx (eq_false_of_ne_true hn) (hv.resolve_left hn)
    · rw [hx]
      exact hw'.follows hnat
    · rw [hx]
      exact hw'.follows hnat

theorem follows_internBlock (h : Current cx log w) (hcx : ∃ r ∈ w.held, r.owner = cx)
    {b : BlockRef} (hb : b.isNull = true ∨ w.native.blocks.contains b = true) :
    Follows cx log w ((Action.internBlock cx b).apply w).2 := by
  by_cases hn : b.isNull = true
  · rw [Action.apply_internBlock_null hn]
    exact h.follows rfl
  · obtain ⟨e, he⟩ := Memory.Graph.contains_iff.mp (hb.resolve_left hn)
    obtain ⟨w', hw', hnat, bb, hx, -⟩ := h.block_gate hcx he
    rw [hx]
    exact hw'.follows hnat

/-- Every proper primitive keeps wrappers current. -/
theorem perform (h : Current cx log w) {a : Primitive} (ha : a.Allowed w.held)
    (hp : a.Proper w.native) : Follows cx log w (a.action.apply w).2 := by
  cases a with
  | call lib c =>
    have hg := Memory.Graph.evolves_perform h.graph c (Call.ne_deleteBlock hp)
    exact ⟨h.evolve hg, hg⟩
  | emit e => exact (h.events _).follows rfl
  | walkLimit lib => exact h.follows rfl
  | createContext | attachContext | forgetValue => exact hp.elim
  | hold r => exact (h.hold ha).follows rfl
  | release r => exact h.release r
  | blockRef bb =>
    obtain ⟨b, w', hx, hw', hnat, -⟩ := h.blockRef ha
    show Follows cx log w ((Action.blockRef bb).apply w).2
    rw [hx]
    exact hw'.follows hnat
  | internType cx' ty =>
    obtain rfl := h.eq_of_owner ha
    exact h.follows_internType ha hp
  | internValue cx' v =>
    obtain rfl := h.eq_of_owner ha
    exact h.follows_internValue ha hp
  | internBlock cx' b =>
    obtain rfl := h.eq_of_owner ha
    exact h.follows_internBlock ha hp

end Current

/-! ## The beginning -/

/-- A world in which a context was just made: it is all that is held, and no block shape is known. -/
structure World.Begins (cx : Context) (w : World Memory.Graph) : Prop where
  sound : ∃ names, Sound names [] w
  held : w.held = [.context cx]
  blockRefs : w.blockRefs = ∅

section Begins

variable {cx : Context} {g : Memory.Graph} {lib : LibraryId} {options : ContextOptions}
variable {w : World Memory.Graph}

theorem World.Begins.current (h : w.Begins cx) (hg : w.native.WellFormed) : Current cx [] w := by
  have hheld {r : Reference} (hr : r ∈ w.held) : r = .context cx := by
    rw [h.held] at hr
    exact List.mem_singleton.mp hr
  refine ⟨h.sound, hg, ?_, ?_, ?_, ?_, ?_⟩
  · intro r hr
    rw [hheld hr]
    rfl
  · exact fun t ht => nomatch hheld ht
  · exact fun v hv => nomatch hheld hv.1
  · intro i b hi
    rw [h.blockRefs] at hi
    exact nomatch hi
  · exact fun v b hv => nomatch hheld hv

/-- A new native context is bound over a library. -/
theorem begins_createContext
    (h : (Action.createContext lib options).apply { native := g } = (.ok cx, w)) :
    w.Begins cx ∧ w.native = g.newContext.2 := by
  obtain ⟨x, w', hx, hs, hheld⟩ :=
    performs_createContext (Sound.start (fun _ => .context cx) g) lib options
  obtain ⟨rfl, rfl⟩ := Prod.mk.inj (hx.symm.trans h)
  exact ⟨⟨hs, hheld, (congrArg (·.2.blockRefs) h).symm⟩, (congrArg (·.2.native) h).symm⟩

/-- A native context of somebody else is bound over a library. -/
theorem begins_attachContext {raw : ContextRef}
    (h : (Action.attachContext lib raw options).apply { native := g } = (.ok cx, w)) :
    w.Begins cx ∧ w.native = g := by
  obtain ⟨x, w', hx, hs, hheld⟩ :=
    performs_attachContext (Sound.start (fun _ => .context cx) g) lib raw options
  obtain ⟨rfl, rfl⟩ := Prod.mk.inj (hx.symm.trans h)
  exact ⟨⟨hs, hheld, (congrArg (·.2.blockRefs) h).symm⟩, (congrArg (·.2.native) h).symm⟩

end Begins

end CanonIR
