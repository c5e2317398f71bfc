import CanonIR.Proofs.Memory.Kind
import CanonIR.Proofs.Memory.Recorder
import CanonIR.Proofs.Shapes.Slot

/-!
The two shapes of blocks, over in-memory libraries. The invariant `Shaped` says that a wrapper whose
handle is the value shape of a living block is a block, and that the block shape which the wrapper
keeps, if it keeps one, is the one of that block. Gates that are given null or living handles keep
it, and so does every other primitive (`Shaped.perform`).
-/

namespace CanonIR

open Memory (Graph BlockEntry)

/-- The wrapper of the value shape of a block. -/
def Action.internShape {σ : Type} [NativeSystem σ] (cx : Context) (b : BlockRef) :
    Action σ (Option ValueWrapper) := do
  internValue cx (← call cx.library (.blockAsValue b))

theorem Viewed.eq_of_value {V : View} {x y : Viewed V} (h : x.value = y.value) : x = y := by
  obtain ⟨v, hv⟩ := x
  obtain ⟨v', hv'⟩ := y
  obtain rfl : v = v' := h
  rfl

/-- A library finds the block shape of every living block. -/
theorem Memory.Graph.valueAsBlock_of_get? {g : Graph} (h : g.WellFormed) {b : BlockRef}
    {e : BlockEntry} (hb : g.blocks.get? b = some e) : g.valueAsBlock e.value = b := by
  have hm : (b, e) ∈ g.blocks.entries := Table.get?_eq_some_iff.mp hb
  unfold valueAsBlock
  cases hf : g.blocks.entries.find? (·.2.value == e.value) with
  | none =>
    have hne := List.find?_eq_none.mp hf _ hm
    simp at hne
  | some p =>
    have hp : p.2.value = e.value := by simpa using List.find?_some hf
    have hget : g.blocks.get? p.1 = some p.2 :=
      Table.get?_eq_some_iff.mpr (List.mem_of_find?_eq_some hf)
    exact h.block_unique p.1 p.2 b e hget hb hp

/-- What has been asked so far does not matter for the classification of a value. -/
theorem Recorders.steady {rs : Recorders} {lib : LibraryId} (hf : (rs.recorder lib).forced = ∅)
    (v : ValueRef) :
    Steady rs.Noted lib v
      (fun p => (rs.recorder lib).graph.ofValue v false (·.probes.contains p))
      ((rs.recorder lib).graph.ofValue v 0 (·.opcode)) where
  isA _ hs p := hs.perform (c := .isA v p) hf rfl rfl
  constOpcode _ hs := hs.perform (c := .constOpcode v) hf rfl rfl

namespace World

/-- The graph of a library. -/
def graph (w : World Recorders) (lib : LibraryId) : Graph := (w.native.recorder lib).graph

/-- Whether the handle of a wrapper is the value shape of a living block. -/
def Denotes (w : World Recorders) (v : ValueWrapper) (b : BlockRef) : Prop :=
  ∃ e, (w.graph v.context.library).blocks.get? b = some e ∧ e.value = v.handle

/-- What is to hold of a wrapper: its address was handed out, and if it denotes a block, then its
kind says so, and the block shape that it keeps is the one of that block. -/
structure Fits (w : World Recorders) (v : ValueWrapper) : Prop where
  handed : (w.graph v.context.library).Handed v.handle.address
  kind : ∀ b, w.Denotes v b → v.kind = .ofClass .basicBlock
  slot : ∀ b b', w.Denotes v b → w.blockRefs.get? v.id = some b' → b' = b

/-- A wrapper of a value is held, and stands in its place in a context. -/
structure Stands {σ : Type} (w : World σ) (cx : Context) (h : ValueRef) (v : ValueWrapper) :
    Prop where
  context : v.context = cx
  handle : v.handle = h
  held : .value v ∈ w.held
  place : w.occupant? ⟨cx.id, .value, h.address⟩ = some (.value v)

variable {w w' : World Recorders} {v : ValueWrapper} {b : BlockRef}

/-- A wrapper denotes no block that is younger than its address. -/
theorem Denotes.of_renew (hd : w'.Denotes v b) (hn : w.native.Renew w'.native)
    (hv : (w.graph v.context.library).Handed v.handle.address) : w.Denotes v b := by
  obtain ⟨e', he', hval⟩ := hd
  rcases (hn v.context.library).graph.blocks b e' he' with ⟨e, he, hee⟩ | hnew
  · exact ⟨e, he, hee.trans hval⟩
  · rw [hval] at hnew
    exact absurd hv hnew

theorem Fits.renew (h : w.Fits v) (hn : w.native.Renew w'.native)
    (hb : w'.blockRefs = w.blockRefs) : w'.Fits v where
  handed := h.handed.mono (hn _).graph.allocated_le
  kind b hd := h.kind b (hd.of_renew hn h.handed)
  slot b b' hd hb' := h.slot b b' (hd.of_renew hn h.handed) (hb ▸ hb')

theorem Stands.noteBlockRef {σ : Type} {w : World σ} {cx : Context} {h : ValueRef}
    (hs : w.Stands cx h v) (bb : BasicBlock) (b : BlockRef) :
    (w.noteBlockRef bb b).Stands cx h v := by
  unfold World.noteBlockRef
  split
  · exact hs
  · exact ⟨hs.context, hs.handle, hs.held, hs.place⟩

/-- A gate finds a wrapper that stands in its place. -/
theorem Stands.internValue {σ : Type} [NativeSystem σ] {w : World σ} {cx : Context} {h : ValueRef}
    (hs : w.Stands cx h v) (hn : h.isNull = false) :
    (Action.internValue cx h).apply w = (.ok (some v), w.hold (.value v)) :=
  Action.apply_internValue_hit hn
    (lookup_values_eq_some_iff.mpr ⟨hs.place, holds_of_mem hs.held⟩)

end World

/-- The invariant: the libraries are well formed and answer by themselves, known block shapes belong
to objects that were made, and whatever value is held fits. -/
structure Shaped (w : World Recorders) : Prop where
  graph : ∀ lib, (w.graph lib).WellFormed
  unforced : ∀ lib, (w.native.recorder lib).forced = ∅
  slot_lt : ∀ i b, w.blockRefs.get? i = some b → i < w.nextId
  fits : ∀ v, .value v ∈ w.held → w.Fits v

namespace Shaped

variable {names : Nat → Reference} {log : List Forgetting} {w w' : World Recorders}
variable {cx : Context} {b : BlockRef} {e : BlockEntry} {bb : BasicBlock}

theorem start : Shaped { native := ∅ } where
  graph _ := Memory.Graph.wellFormed_empty
  unforced _ := rfl
  slot_lt _ _ h := nomatch h
  fits _ h := nomatch h

/-- A step that notes no block shape. -/
theorem step (h : Shaped w) (hn : w.native.Renew w'.native) (hid : w.nextId ≤ w'.nextId)
    (hb : w'.blockRefs = w.blockRefs)
    (hheld : ∀ v, .value v ∈ w'.held → .value v ∈ w.held ∨ w'.Fits v) : Shaped w' where
  graph lib := (hn lib).wellFormed (h.graph lib)
  unforced lib := (hn lib).forced.trans (h.unforced lib)
  slot_lt i b hi := Nat.lt_of_lt_of_le (h.slot_lt i b (hb ▸ hi)) hid
  fits v hv := (hheld v hv).elim (fun hm => (h.fits v hm).renew hn hb) id

/-- Questions, and notes of them. -/
theorem aside (h : Shaped w) {s : Recorders} (hn : w.native.Noted s) (e : Array Event) :
    Shaped { w with native := s, events := e } :=
  h.step hn.renew (Nat.le_refl _) rfl fun _ => Or.inl

/-- The block shape of a wrapper is noted, which is the one of the block that it denotes. -/
theorem noteBlockRef (h : Shaped w) (hs : Sound names log w) (hbb : .value bb.value ∈ w.held)
    (hb : ∀ b', w.Denotes bb.value b' → b = b') : Shaped (w.noteBlockRef bb b) := by
  unfold World.noteBlockRef
  split
  · exact h
  · refine { h with slot_lt := ?_, fits := ?_ }
    · intro i b' hi
      rcases Table.get?_of_get?_insert hi with ⟨rfl, -⟩ | ⟨-, hi⟩
      · exact (hs.held_named _ hbb).lt
      · exact h.slot_lt i b' hi
    · intro v hv
      refine { h.fits v hv with slot := fun b₁ b' hd hb' => ?_ }
      rcases Table.get?_of_get?_insert hb' with ⟨hid, rfl⟩ | ⟨-, hb'⟩
      · obtain rfl := Reference.value.inj (hs.eq_of_id_eq hv hbb hid)
        exact hb b₁ hd
      · exact (h.fits v hv).slot b₁ b' hd hb'

/-! ## Gates -/

/-- A question to a library, and its answer. -/
theorem ask (h : Shaped w) (lib : LibraryId) {c : Call} (hc : c.changes = false) {a : c.Answer}
    (ha : ((w.graph lib).perform c).1 = .ok a) :
    ∃ s, (Action.call lib c).apply w = (.ok a, { w with native := s }) ∧ w.native.Noted s :=
  Recorders.apply_call_of_unforced (h.unforced lib) hc ha

/-- The gate of values, given an address that was handed out, returns a wrapper that stands in its
place, or fails as the classification does. -/
theorem value_gate (h : Shaped w) (hs : Sound names log w) (hcx : ∃ r ∈ w.held, r.owner = cx)
    {v : ValueRef} (hh : (w.graph cx.library).Handed v.address) :
    ∃ x w', (Action.internValue cx v).apply w = (x, w') ∧ Shaped w' ∧
      w.native.Noted w'.native ∧
      ((∃ y, x = .ok (some y) ∧ w'.Stands cx v y) ∨
        ∃ f, x = .error f ∧
          (w.graph cx.library).valueKind v cx.options.unknownValues = .error f) := by
  have hn : v.isNull = false := Handle.isNull_eq_false_iff.mpr hh.ne_zero
  rcases internValue_steady (Recorders.steady (h.unforced cx.library) v) (w := w)
      (refl_of Recorders.Noted _) hn with
    ⟨y, hl, ha⟩ | ⟨kind, s, ev, hns, hk, ha⟩ | ⟨f, s, ev, hns, hk, ha⟩
  · obtain ⟨ho, hlive⟩ := World.lookup_values_eq_some_iff.mp hl
    have hm := hs.mem_of_holds ho hlive
    have hhandle : y.handle = v :=
      congrArg Handle.mk (Place.mk.inj (Option.some.inj (hs.place _ _ ho).1)).2.2
    have hy : (w.hold (.value y)).Stands cx v y :=
      ⟨hs.owner_of_gated hcx (.hit ho hlive), hhandle, List.mem_cons_self, ho⟩
    refine ⟨_, _, ha, ?_, refl_of Recorders.Noted _, Or.inl ⟨y, rfl, hy⟩⟩
    refine h.step (refl_of Recorders.Renew _) (Nat.le_refl _) rfl fun x hx => Or.inl ?_
    rcases List.mem_cons.mp hx with hx | hx
    · exact hx ▸ hm
    · exact hx
  · have hentered := World.entered_enterValue ⟨w.nextId, cx, v, kind⟩
      (World.made (.value ⟨w.nextId, cx, v, kind⟩) { w with native := s, events := ev })
    refine ⟨_, _, ha, ?_, hns, Or.inl ⟨_, rfl, rfl, rfl, List.mem_cons_self, hentered.self⟩⟩
    refine h.step hns.renew (Nat.le_succ _) rfl fun x hx => ?_
    rcases List.mem_cons.mp hx with hx | hx
    · obtain rfl := Reference.value.inj hx
      refine Or.inr ⟨hh.mono (hns.renew _).graph.allocated_le, fun b hd => ?_, fun b b' _ hb' => ?_⟩
      · obtain ⟨e, he, hval⟩ := World.Denotes.of_renew (w := w) hd hns.renew hh
        have hkind := Memory.Graph.valueKind_of_block (h.graph _) he cx.options.unknownValues
        rw [hval] at hkind
        exact Except.ok.inj (hk.symm.trans hkind)
      · exact absurd (h.slot_lt _ b' hb') (Nat.lt_irrefl _)
    · exact Or.inl hx
  · exact ⟨_, _, ha, h.aside hns ev, hns, Or.inr ⟨f, rfl, hk⟩⟩

/-- The block shape of a held wrapper is the one of the block that it denotes, whether it is known
or asked for; then it is known. -/
theorem blockRef (h : Shaped w) (hs : Sound names log w) (hbb : .value bb.value ∈ w.held) :
    ∃ b w', (Action.blockRef bb).apply w = (.ok b, w') ∧ Shaped w' ∧
      w'.blockRefs.get? bb.value.id = some b ∧ ∀ b', w.Denotes bb.value b' → b = b' := by
  rw [Action.apply_blockRef]
  cases hb : w.blockRefs.get? bb.value.id with
  | some b => exact ⟨b, w, rfl, h, hb, fun b' hd => (h.fits _ hbb).slot b' b hd hb⟩
  | none =>
    obtain ⟨s, hask, hns⟩ :=
      h.ask bb.value.context.library (c := .valueAsBlock bb.value.handle) rfl rfl
    rw [hask]
    let b := (w.graph bb.value.context.library).valueAsBlock bb.value.handle
    let e := w.events.push (.convertedBlock bb.value.handle b)
    let w₁ : World Recorders := { w with native := s, events := e }
    have hval (b' : BlockRef) (hd : w.Denotes bb.value b') : b = b' := by
      obtain ⟨e', he', hv⟩ := hd
      have := Memory.Graph.valueAsBlock_of_get? (h.graph _) he'
      rwa [hv] at this
    have hs₁ : Sound names log w₁ := hs.congr rfl rfl rfl rfl
    have h₁ : Shaped w₁ := h.aside hns e
    refine ⟨b, w₁.noteBlockRef bb b, rfl, h₁.noteBlockRef hs₁ hbb ?_, ?_, hval⟩
    · exact fun b' hd => hval b' (hd.of_renew (w := w) hns.renew (h.fits _ hbb).handed)
    · exact World.get?_noteBlockRef (w := w₁) hb

/-- The gates of a block have met: the wrapper of a living block stands in its place, in a world
that is as it should be. -/
structure Met (log : List Forgetting) (cx : Context) (b : BlockRef) (e : BlockEntry)
    (bb : BasicBlock) (w : World Recorders) : Prop where
  shaped : Shaped w
  sound : ∃ names, Sound names log w
  block : (w.graph cx.library).blocks.get? b = some e
  stands : w.Stands cx e.value bb.value

theorem Met.denotes (h : Met log cx b e bb w) : w.Denotes bb.value b :=
  ⟨e, by rw [h.stands.context]; exact h.block, h.stands.handle.symm⟩

theorem Met.noteBlockRef (h : Met log cx b e bb w) : Met log cx b e bb (w.noteBlockRef bb b) := by
  obtain ⟨names, hs⟩ := h.sound
  have hunique (b' : BlockRef) (hd : w.Denotes bb.value b') : b = b' := by
    obtain ⟨e', he', hv⟩ := hd
    obtain ⟨e₀, he₀, hv₀⟩ := h.denotes
    exact (h.shaped.graph _).block_unique b e₀ b' e' he₀ he' (hv₀.trans hv.symm)
  exact ⟨h.shaped.noteBlockRef hs h.stands.held hunique, ⟨names, hs.noteBlockRef bb b⟩,
    by rw [World.graph, World.native_noteBlockRef]; exact h.block, h.stands.noteBlockRef bb b⟩

theorem Met.blockRef (h : Met log cx b e bb w) : ((Action.blockRef bb).apply w).1 = .ok b := by
  obtain ⟨names, hs⟩ := h.sound
  obtain ⟨b', w', hx, -, -, hval⟩ := h.shaped.blockRef hs h.stands.held
  rw [hx, hval b h.denotes]

/-- Both gates of a living block return the wrapper that stands in its place then, which is the one
that stood there before, if there was one. -/
theorem block_gates (h : Shaped w) (hs : Sound names log w) (hcx : ∃ r ∈ w.held, r.owner = cx)
    (hb : (w.graph cx.library).blocks.get? b = some e) :
    ∃ bb w', (Action.internShape cx b).apply w = (.ok (some bb.value), w') ∧
      (Action.internBlock cx b).apply w = (.ok (some bb), w'.noteBlockRef bb b) ∧
      Met log cx b e bb w' ∧ ∀ v, w.Stands cx e.value v → bb.value = v := by
  have hval : ((w.graph cx.library).perform (.blockAsValue b)).1 = .ok e.value := by
    have : (w.graph cx.library).blockValue b = e.value := by rw [Graph.blockValue, hb]; rfl
    rw [← this]
    rfl
  obtain ⟨s, hask, hns⟩ := h.ask cx.library (c := .blockAsValue b) rfl hval
  -- From here on the library has been asked for the value shape.
  let w₀ : World Recorders := { w with native := s }
  have h₀ : Shaped w₀ := h.aside hns w.events
  have hs₀ : Sound names log w₀ := hs.congr rfl rfl rfl rfl
  have hb₀ : (w₀.graph cx.library).blocks.get? b = some e :=
    (congrArg (·.blocks.get? b) (hns.graph cx.library)).trans hb
  obtain ⟨ve, hve, -⟩ := (h₀.graph cx.library).block_value b e hb₀
  obtain ⟨x, w', hx, h', hn', hy⟩ :=
    h₀.value_gate hs₀ hcx ((h₀.graph cx.library).value_handed _ ve hve)
  have hb' : (w'.graph cx.library).blocks.get? b = some e :=
    (congrArg (·.blocks.get? b) (hn'.graph cx.library)).trans hb₀
  obtain ⟨_, w'', hx', hs', -⟩ := performs_internValue hs₀ hcx e.value
  obtain rfl : w' = w'' := congrArg Prod.snd (hx.symm.trans hx')
  rcases hy with ⟨y, rfl, hy⟩ | ⟨f, rfl, hf⟩
  · have hd : w'.Denotes y b := ⟨e, by rw [hy.context]; exact hb', hy.handle.symm⟩
    have hacc : View.basicBlock.accepts y.kind = true := by
      rw [(h'.fits y hy.held).kind b hd]
      rfl
    refine ⟨⟨y, hacc⟩, w', ?_, ?_, ⟨h', hs', hb', hy⟩, fun v hv => ?_⟩
    · rw [Action.internShape, Action.apply_bind, hask]
      exact hx
    · have hn : b.isNull = false :=
        Handle.isNull_eq_false_iff.mpr ((h.graph _).block_handed b e hb).ne_zero
      have hdown : y.downcast? .basicBlock = some ⟨y, hacc⟩ := dif_pos hacc
      rw [Action.apply_internBlock hn, hask]
      dsimp only
      rw [hs₀.apply_blockOf hcx, hx]
      dsimp only
      rw [hdown]
    · have hn : e.value.isNull = false :=
        Handle.isNull_eq_false_iff.mpr ((h₀.graph _).value_handed _ ve hve).ne_zero
      have hv₀ : w₀.Stands cx e.value v := ⟨hv.context, hv.handle, hv.held, hv.place⟩
      exact Option.some.inj (Except.ok.inj (congrArg Prod.fst (hx.symm.trans (hv₀.internValue hn))))
  · rw [Memory.Graph.valueKind_of_block (h₀.graph _) hb₀] at hf
    cases hf

/-- The gates go on to return the same wrapper. -/
theorem Met.again (h : Met log cx b e bb w) :
    ∃ w', (Action.internShape cx b).apply w = (.ok (some bb.value), w') ∧
      (Action.internBlock cx b).apply w = (.ok (some bb), w'.noteBlockRef bb b) ∧
      Met log cx b e bb w' := by
  obtain ⟨names, hs⟩ := h.sound
  have hcx : ∃ r ∈ w.held, r.owner = cx := ⟨_, h.stands.held, h.stands.context⟩
  obtain ⟨bb', w', hshape, hblock, hmet, hv⟩ := h.shaped.block_gates hs hcx h.block
  obtain rfl : bb' = bb := Viewed.eq_of_value (hv _ h.stands)
  exact ⟨w', hshape, hblock, hmet⟩

end Shaped

/-! ## Primitives -/

namespace Primitive

/-- The gates of values and of blocks are given null handles, or handles of living objects. -/
def Given (rs : Recorders) : Primitive → Prop
  | internValue cx v =>
    v.isNull = true ∨ (rs.recorder cx.library).graph.values.contains v = true
  | internBlock cx b =>
    b.isNull = true ∨ (rs.recorder cx.library).graph.blocks.contains b = true
  | _ => True

instance (rs : Recorders) (a : Primitive) : Decidable (a.Given rs) :=
  match a with
  | internValue _ _ | internBlock _ _ => inferInstanceAs (Decidable (_ ∨ _))
  | call _ _ | emit _ | walkLimit _ | createContext _ _ | attachContext _ _ _ | internType _ _
  | blockRef _ | forgetValue _ _ | hold _ | release _ => .isTrue trivial

end Primitive

namespace Shaped

variable {names : Nat → Reference} {log : List Forgetting} {w : World Recorders}
variable {cx : Context}

theorem internValue (h : Shaped w) (hs : Sound names log w) (hcx : ∃ r ∈ w.held, r.owner = cx)
    {v : ValueRef}
    (hv : v.isNull = true ∨ (w.graph cx.library).values.contains v = true) :
    Shaped ((Action.internValue cx v).apply w).2 := by
  by_cases hn : v.isNull = true
  · rw [Action.apply_internValue_null hn]
    exact h
  · obtain ⟨ve, hve⟩ := Memory.Graph.contains_iff.mp (hv.resolve_left hn)
    obtain ⟨x, w', hx, h', -⟩ := h.value_gate hs hcx ((h.graph cx.library).value_handed v ve hve)
    rw [hx]
    exact h'

theorem internBlock (h : Shaped w) (hs : Sound names log w) (hcx : ∃ r ∈ w.held, r.owner = cx)
    {b : BlockRef}
    (hb : b.isNull = true ∨ (w.graph cx.library).blocks.contains b = true) :
    Shaped ((Action.internBlock cx b).apply w).2 := by
  by_cases hn : b.isNull = true
  · rw [Action.apply_internBlock_null hn]
    exact h
  · obtain ⟨e, he⟩ := Memory.Graph.contains_iff.mp (hb.resolve_left hn)
    obtain ⟨bb, w', -, hblock, hmet, -⟩ := h.block_gates hs hcx he
    rw [hblock]
    exact hmet.noteBlockRef.shaped

/-- A primitive that brings no wrapper of a value, and notes no block shape. -/
theorem perform_unnoted (h : Shaped w) (hs : Sound names log w) {a : Primitive}
    (ha : a.Allowed w.held) (hn : a.notes = false) (hi : ∀ cx v, a ≠ .internValue cx v) :
    Shaped (a.action.apply w).2 := by
  have hnative := Recorders.persists_renew.perform hs ha fun _ _ => trivial
  have hu := unnoted_perform hn w
  obtain ⟨x, w', hx, -, hheld⟩ := hs.perform a ha
  rw [hx] at hnative hu ⊢
  refine h.step hnative hu.nextId_le hu.blockRefs fun v hv => Or.inl ?_
  exact Primitive.mem_of_mem_after ha hn hi (hheld ▸ hv)

/-- Every primitive keeps the shapes, if the gates are given null or living handles. -/
theorem perform (h : Shaped w) (hs : Sound names log w) {a : Primitive} (ha : a.Allowed w.held)
    (hg : a.Given w.native) : Shaped (a.action.apply w).2 := by
  cases a with
  | internValue cx v => exact h.internValue hs ha hg
  | internBlock cx b => exact h.internBlock hs ha hg
  | blockRef bb =>
    obtain ⟨b, w', hx, h', -⟩ := h.blockRef hs ha
    show Shaped ((Action.blockRef bb).apply w).2
    rw [hx]
    exact h'
  | _ => exact h.perform_unnoted hs ha rfl fun _ _ heq => nomatch heq

end Shaped

end CanonIR
