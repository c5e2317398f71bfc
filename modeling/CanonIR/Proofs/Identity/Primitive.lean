import CanonIR.Binding.Operation
import CanonIR.Proofs.Identity.Sound

/-!
Primitives keep the invariant. Which references a primitive needs, which it takes and which it gives
up is said by `Allowed` and `after`; the world follows that account (`held_perform`), and stays
sound (`Sound.perform`).
-/

namespace CanonIR

namespace Primitive

/-- What a primitive needs among the references that somebody has: the context of a gate, the block
that is asked for its block shape, the object of a reference that is taken or given up. -/
def Allowed (has : List Reference) : Primitive → Prop
  | internType cx _ | internValue cx _ | internBlock cx _ | forgetValue cx _ =>
    ∃ r ∈ has, r.owner = cx
  | blockRef bb => .value bb.value ∈ has
  | hold r => r ∈ has ∨ ∃ r' ∈ has, r = .context r'.owner
  | release r => r ∈ has
  | _ => True

instance (has : List Reference) (a : Primitive) : Decidable (a.Allowed has) := by
  cases a <;> unfold Allowed <;> infer_instance

/-- The references that the result of a primitive brings. -/
def references : (a : Primitive) → a.Result → List Reference
  | createContext _ _, cx => [.context cx]
  | attachContext _ _ _, cx => [.context cx]
  | internType _ _, t => t.toList.map .type
  | internValue _ _, v => v.toList.map .value
  | internBlock _ _, bb => bb.toList.map fun x => .value x.value
  | hold r, _ => [r]
  | _, _ => []

/-- The references that a primitive gives up. -/
def released : Primitive → List Reference
  | release r => [r]
  | _ => []

/-- What somebody has after a primitive, who had `has` before. -/
def after (a : Primitive) (x : Except Fault a.Result) (has : List Reference) : List Reference :=
  match a, x with
  | release r, _ => has.erase r
  | a, .ok y => a.references y ++ has
  | _, .error _ => has

/-- What gives nothing up adds the references of its result. -/
theorem after_of_released {a : Primitive} (h : a.released = []) (x : Except Fault a.Result)
    (has : List Reference) :
    a.after x has = match x with
      | .ok y => a.references y ++ has
      | .error _ => has := by
  cases a with
  | release r => contradiction
  | _ => cases x <;> rfl

/-- What somebody has after a primitive was there before, or came with the result. -/
theorem mem_after_cases {a : Primitive} {x : Except Fault a.Result} {has : List Reference}
    {r : Reference} (hr : r ∈ a.after x has) : r ∈ has ∨ ∃ y, r ∈ a.references y := by
  cases a with
  | release r' => exact Or.inl (List.mem_of_mem_erase hr)
  | _ =>
    rw [after_of_released rfl] at hr
    cases x with
    | error f => exact Or.inl hr
    | ok y =>
      rcases List.mem_append.mp hr with hr | hr
      · exact Or.inr ⟨y, hr⟩
      · exact Or.inl hr

/-- A reference to a wrapper that is taken was there before. -/
theorem mem_of_allowed_hold {has : List Reference} {r : Reference}
    (ha : (hold r).Allowed has) (hr : ∀ cx, r ≠ .context cx) : r ∈ has :=
  ha.resolve_right fun hx => by
    obtain ⟨r', -, heq⟩ := hx
    exact hr r'.owner heq

theorem after_call (lib : LibraryId) (c : Call) (x : Except Fault c.Answer)
    (has : List Reference) : (call lib c).after x has = has := by
  cases x <;> rfl

/-- What a primitive forgets. -/
def forgets {σ : Type} (w : World σ) : Primitive → List Forgetting
  | forgetValue cx h => [⟨cx.id, h, w.nextId⟩]
  | _ => []

theorem Allowed.mono {has has' : List Reference} {a : Primitive} (h : a.Allowed has)
    (hs : has ⊆ has') : a.Allowed has' := by
  cases a with
  | internType | internValue | internBlock | forgetValue =>
    obtain ⟨r, hr, ho⟩ := h
    exact ⟨r, hs hr, ho⟩
  | blockRef | release => exact hs h
  | hold r =>
    rcases h with hr | ⟨r', hr', ho⟩
    · exact Or.inl (hs hr)
    · exact Or.inr ⟨r', hs hr', ho⟩
  | call | emit | walkLimit | createContext | attachContext => trivial

end Primitive

/-! ## Gates -/

/-- What a gate does at a place: nothing, or it finds the wrapper that lives there, or it makes one
where none lives. -/
inductive Gated {σ : Type} (cx : Context) (p : Place) (w : World σ) :
    Option Reference → World σ → Prop where
  | aside {w' : World σ} (h : w.Aside w') : Gated cx p w none w'
  | hit {r : Reference} (hr : w.occupant? p = some r) (ha : w.holds r.id = true) :
    Gated cx p w (some r) (w.hold r)
  | miss {w₁ w' : World σ} {r : Reference} (h : w.Aside w₁)
    (hfree : ∀ r', w₁.occupant? p = some r' → w₁.holds r'.id = false) (h0 : p.address ≠ 0)
    (hid : r.id = w₁.nextId) (ho : r.owner = cx) (hp : r.place? = some p)
    (he : World.Entered r p (w₁.made r) w') : Gated cx p w (some r) w'

section Gates

variable {σ : Type} [NativeSystem σ]

theorem gated_internType (cx : Context) (h : TypeRef) (w : World σ) :
    ∃ x w', (Action.internType cx h).apply w = (x, w') ∧
      Gated cx ⟨cx.id, .type, h.address⟩ w (x.toOption.join.map .type) w' := by
  cases hn : h.isNull with
  | true => exact ⟨_, _, Action.apply_internType_null hn, .aside (.refl w)⟩
  | false =>
    cases hl : (w.cachesOf cx).types.lookup w.typeAlive h.address with
    | some t =>
      obtain ⟨hr, ha⟩ := World.lookup_types_eq_some_iff.mp hl
      exact ⟨_, _, Action.apply_internType_hit hn hl, .hit hr ha⟩
    | none =>
      have hasks := Action.asks_classifyType cx.library h w
      rw [Action.apply_internType_miss hn hl]
      generalize (Action.classifyType cx.library h).apply w = r at hasks ⊢
      obtain ⟨e | kind, w₁⟩ := r
      · exact ⟨_, _, rfl, .aside hasks⟩
      · obtain ⟨s, e, rfl⟩ := hasks
        have ha : w.Aside (World.emit (.internedType h kind) { w with native := s, events := e }) :=
          ⟨s, _, rfl⟩
        exact ⟨_, _, rfl, .miss ha (World.not_holds_of_lookup_types hl)
          (Handle.isNull_eq_false_iff.mp hn) rfl rfl rfl (World.entered_enterType _ _)⟩

theorem gated_internValue (cx : Context) (h : ValueRef) (w : World σ) :
    ∃ x w', (Action.internValue cx h).apply w = (x, w') ∧
      Gated cx ⟨cx.id, .value, h.address⟩ w (x.toOption.join.map .value) w' := by
  cases hn : h.isNull with
  | true => exact ⟨_, _, Action.apply_internValue_null hn, .aside (.refl w)⟩
  | false =>
    cases hl : (w.cachesOf cx).values.lookup w.valueAlive h.address with
    | some t =>
      obtain ⟨hr, ha⟩ := World.lookup_values_eq_some_iff.mp hl
      exact ⟨_, _, Action.apply_internValue_hit hn hl, .hit hr ha⟩
    | none =>
      have hasks := Action.asks_classifyValue cx.library h cx.options.unknownValues w
      rw [Action.apply_internValue_miss hn hl]
      generalize (Action.classifyValue cx.library h cx.options.unknownValues).apply w = r
        at hasks ⊢
      obtain ⟨e | kind, w₁⟩ := r
      · exact ⟨_, _, rfl, .aside hasks⟩
      · obtain ⟨s, e, rfl⟩ := hasks
        have ha : w.Aside (World.emit (.internedValue h kind) { w with native := s, events := e }) :=
          ⟨s, _, rfl⟩
        exact ⟨_, _, rfl, .miss ha (World.not_holds_of_lookup_values hl)
          (Handle.isNull_eq_false_iff.mp hn) rfl rfl rfl (World.entered_enterValue _ _)⟩

variable {names : Nat → Reference} {log : List Forgetting} {w w' : World σ}
variable {cx : Context} {p : Place} {x : Option Reference}

omit [NativeSystem σ]

/-- A gate holds what it returns, and nothing else changes about references. -/
theorem Gated.held (h : Gated cx p w x w') : w'.held = x.toList ++ w.held := by
  cases h with
  | aside h =>
    obtain ⟨s, e, rfl⟩ := h
    rfl
  | hit hr ha => rfl
  | miss h hfree h0 hid ho hp he =>
    obtain ⟨s, e, rfl⟩ := h
    rw [he.frame]
    rfl

theorem Sound.gated (h : Sound names log w) (hcx : ∃ r ∈ w.held, r.owner = cx)
    (hg : Gated cx p w x w') : ∃ names', Sound names' log w' := by
  cases hg with
  | aside ha => exact ⟨names, h.aside ha⟩
  | hit hr ha => exact ⟨names, h.hold (Or.inl (h.mem_of_holds hr ha))⟩
  | miss ha hfree h0 hid ho hp he =>
    have h₁ := h.aside ha
    obtain ⟨s, e, rfl⟩ := ha
    subst ho
    exact ⟨_, h₁.enter hcx hid hp h0 hfree he⟩

/-- What a gate of a context returns belongs to the context. -/
theorem Sound.owner_of_gated (h : Sound names log w) (hcx : ∃ r ∈ w.held, r.owner = cx)
    {a : Nat} {s : WrapperSort} {r : Reference} (hg : Gated cx ⟨cx.id, s, a⟩ w (some r) w') :
    r.owner = cx := by
  cases hg with
  | miss ha hfree h0 hid ho hp he => exact ho
  | hit hr ha =>
    obtain ⟨r₀, hr₀, rfl⟩ := hcx
    have hid : r.owner.id = r₀.owner.id := Reference.owner_id_of_place? (h.place _ _ hr).1
    exact Reference.context.inj
      ((h.occupant_named _ _ hr).owner.eq_of_id_eq (h.held_named r₀ hr₀).owner hid)

/-- What the gate of blocks does: nothing, or it passes the gate of values, where the wrapper that
comes out is a block, whose block shape is noted, or none, which is given up again. -/
inductive GatedBlock (cx : Context) (b : BlockRef) (w : World σ) :
    Option BasicBlock → World σ → Prop where
  | aside {w' : World σ} (h : w.Aside w') : GatedBlock cx b w none w'
  | found {w₁ w' : World σ} {bb : BasicBlock} {a : Nat} (h : w.Aside w₁)
    (hg : Gated cx ⟨cx.id, .value, a⟩ w₁ (some (.value bb.value)) w') :
    GatedBlock cx b w (some bb) (w'.noteBlockRef bb b)
  | misfit {w₁ w' : World σ} {v : ValueWrapper} {a : Nat} (h : w.Aside w₁)
    (hg : Gated cx ⟨cx.id, .value, a⟩ w₁ (some (.value v)) w') :
    GatedBlock cx b w none (w'.relinquish (.value v))

/-- Giving up what a gate has returned leaves the references that were there. -/
theorem Gated.held_relinquish {r : Reference} (h : Gated cx p w (some r) w') :
    (w'.relinquish r).held = w.held := by
  rw [World.relinquish_of_held h.held]
  rfl

theorem GatedBlock.held {b : BlockRef} {x : Option BasicBlock} (h : GatedBlock cx b w x w') :
    w'.held = x.toList.map (.value ·.value) ++ w.held := by
  cases h with
  | aside h => exact h.held
  | found h hg => rw [World.held_noteBlockRef, hg.held, h.held]; rfl
  | misfit h hg => rw [hg.held_relinquish, h.held]; rfl

theorem Sound.gatedBlock (h : Sound names log w) (hcx : ∃ r ∈ w.held, r.owner = cx)
    {b : BlockRef} {x : Option BasicBlock} (hg : GatedBlock cx b w x w') :
    ∃ names', Sound names' log w' := by
  cases hg with
  | aside ha => exact ⟨names, h.aside ha⟩
  | found ha hg =>
    obtain ⟨names', hs⟩ := (h.aside ha).gated (ha.held ▸ hcx) hg
    exact ⟨names', hs.noteBlockRef _ b⟩
  | misfit ha hg =>
    obtain ⟨names', hs⟩ := (h.aside ha).gated (ha.held ▸ hcx) hg
    exact ⟨names', hs.relinquish _⟩

variable [NativeSystem σ]

/-- The context that is used at the gate outlives a wrapper that is given up there. -/
theorem Sound.apply_blockOf (h : Sound names log w) (hcx : ∃ r ∈ w.held, r.owner = cx)
    (b : BlockRef) (v : ValueRef) :
    (Action.blockOf cx b v).apply w =
      match (Action.internValue cx v).apply w with
      | (.ok none, w) => (.ok none, w)
      | (.ok (some v), w) =>
        match v.downcast? .basicBlock with
        | some bb => (.ok (some bb), w.noteBlockRef bb b)
        | none => (.ok none, w.relinquish (.value v))
      | (.error e, w) => (.error e, w) := by
  rw [Action.apply_blockOf]
  obtain ⟨x, w', hx, hg⟩ := gated_internValue cx v w
  rw [hx]
  obtain _ | _ | v := x
  · rfl
  · rfl
  · have hheld : Reference.value v ∈ w'.held := by
      rw [hg.held]
      exact List.mem_cons_self
    have halive : (w'.relinquish (.value v)).contextAlive v.context = true := by
      obtain ⟨r, hr, ho⟩ := hcx
      have hv := h.owner_of_gated ⟨r, hr, ho⟩ hg
      refine World.contextAlive_iff.mpr ⟨r, ?_, congrArg Context.id (ho.trans hv.symm)⟩
      rw [hg.held_relinquish]
      exact hr
    have hrel := World.release_of_alive (World.holds_of_mem hheld) halive
    dsimp only
    cases v.downcast? .basicBlock with
    | some bb => rfl
    | none => exact congrArg (Prod.mk _) hrel

theorem gated_internBlock (h : Sound names log w) (hcx : ∃ r ∈ w.held, r.owner = cx)
    (b : BlockRef) :
    ∃ x w', (Action.internBlock cx b).apply w = (x, w') ∧
      GatedBlock cx b w x.toOption.join w' := by
  cases hn : b.isNull with
  | true => exact ⟨_, _, Action.apply_internBlock_null hn, .aside (.refl w)⟩
  | false =>
    have ha := Action.asks_call cx.library (.blockAsValue b) w
    rw [Action.apply_internBlock hn]
    generalize (Action.call cx.library (.blockAsValue b)).apply w = r at ha ⊢
    obtain ⟨e | v, w₁⟩ := r
    · exact ⟨_, _, rfl, .aside ha⟩
    · dsimp only at ha ⊢
      rw [(h.aside ha).apply_blockOf (ha.held ▸ hcx)]
      obtain ⟨x, w', hx, hg⟩ := gated_internValue cx v w₁
      rw [hx]
      obtain _ | _ | v := x
      · cases hg with
        | aside ha' => exact ⟨_, _, rfl, .aside (ha.trans ha')⟩
      · cases hg with
        | aside ha' => exact ⟨_, _, rfl, .aside (ha.trans ha')⟩
      · dsimp only
        cases hd : v.downcast? .basicBlock with
        | some bb =>
          obtain rfl := ValueWrapper.value_of_downcast? hd
          exact ⟨_, _, rfl, .found ha hg⟩
        | none => exact ⟨_, _, rfl, .misfit ha hg⟩

end Gates

/-! ## One primitive -/

section Perform

variable {σ : Type}

variable {names : Nat → Reference} {log : List Forgetting} {w : World σ}

theorem apply_attachContext_living {lib : LibraryId} {raw : ContextRef} {cx : Context}
    (options : ContextOptions) (hl : w.registry.living? w.contextAlive (lib, raw) = some cx) :
    (Action.attachContext lib raw options).apply w =
      (.ok cx, (w.emit (.reusedBinding raw)).hold (.context cx)) := by
  rw [Action.attachContext, Action.apply_bind, Action.apply_get]
  dsimp only
  rw [hl]
  rfl

theorem apply_attachContext_fresh {lib : LibraryId} {raw : ContextRef} (options : ContextOptions)
    (hl : w.registry.living? w.contextAlive (lib, raw) = none) :
    (Action.attachContext lib raw options).apply w =
      let cx : Context := ⟨w.nextId, lib, raw, false, options⟩
      (.ok cx, (w.emit (.attachedContext raw options.unknownValues)).bound cx) := by
  rw [Action.attachContext, Action.apply_bind, Action.apply_get]
  dsimp only
  rw [hl]
  rfl

/-- A binding in the registry that lives has a reference to it. -/
theorem Sound.exists_of_living? (h : Sound names log w) {key : LibraryId × ContextRef}
    {cx : Context} (hl : w.registry.living? w.contextAlive key = some cx) :
    ∃ r ∈ w.held, r.owner = cx := by
  obtain ⟨hk, ha⟩ := Option.filter_eq_some_iff.mp hl
  obtain ⟨r, hr, hid⟩ := World.contextAlive_iff.mp ha
  exact ⟨r, hr, Reference.context.inj
    ((h.held_named r hr).owner.eq_of_id_eq (h.registry_named _ cx hk) hid)⟩

variable [NativeSystem σ]

/-- To make a context, the library is asked, and its answer is bound. -/
theorem createContext_cases (lib : LibraryId) (options : ContextOptions) (w : World σ) :
    (∃ e w₁, (Action.createContext lib options).apply w = (.error e, w₁) ∧ w.Aside w₁) ∨
    ∃ cx w₁, (Action.createContext lib options).apply w = (.ok cx, w₁.bound cx) ∧ w.Aside w₁ ∧
      cx.id = w₁.nextId ∧ cx.owned = true := by
  have ha := Action.asks_call lib .createContext w
  rw [Action.createContext, Action.apply_bind]
  generalize (Action.call lib .createContext).apply w = r at ha ⊢
  obtain ⟨e | raw, w₁⟩ := r
  · exact Or.inl ⟨e, w₁, rfl, ha⟩
  · have he := Action.asks_emit (.createdContext raw options.unknownValues) w₁
    exact Or.inr ⟨_, _, rfl, ha.trans he, rfl, rfl⟩

/-- A block shape that is known is there without a question. -/
theorem apply_blockRef_known {bb : BasicBlock} {b : BlockRef}
    (hb : w.blockRefs.get? bb.value.id = some b) :
    (Action.blockRef bb).apply w = (.ok b, w) := by
  rw [Action.apply_blockRef, hb]

/-- A block shape that is not known is asked for, and noted. -/
theorem blockRef_cases {bb : BasicBlock} (hn : w.blockRefs.get? bb.value.id = none) :
    (∃ e w₁, (Action.blockRef bb).apply w = (.error e, w₁) ∧ w.Aside w₁) ∨
    ∃ b w₁, (Action.blockRef bb).apply w = (.ok b, w₁.noteBlockRef bb b) ∧ w.Aside w₁ := by
  have ha := Action.asks_call bb.value.context.library (.valueAsBlock bb.value.handle) w
  rw [Action.apply_blockRef, hn]
  dsimp only
  generalize (Action.call bb.value.context.library (.valueAsBlock bb.value.handle)).apply w = r
    at ha ⊢
  obtain ⟨e | b, w₁⟩ := r
  · exact Or.inl ⟨e, w₁, rfl, ha⟩
  · have he := Action.asks_emit (.convertedBlock bb.value.handle b) w₁
    exact Or.inr ⟨b, _, rfl, ha.trans he⟩

/-- What a primitive does to a sound world: it stays sound, and what is held follows the account. -/
def Primitive.Performs (a : Primitive) (log : List Forgetting) (w : World σ) : Prop :=
  ∃ x w', a.action.apply w = (x, w') ∧ (∃ names, Sound names (a.forgets w ++ log) w') ∧
    w'.held = a.after x w.held

theorem performs_call (h : Sound names log w) (lib : LibraryId) (c : Call) :
    (Primitive.call lib c).Performs log w := by
  have ha := Action.asks_call lib c w
  refine ⟨_, _, rfl, ⟨names, h.aside ha⟩, ?_⟩
  exact (World.Aside.held ha).trans (Primitive.after_call lib c _ _).symm

theorem performs_createContext (h : Sound names log w) (lib : LibraryId)
    (options : ContextOptions) : (Primitive.createContext lib options).Performs log w := by
  rcases createContext_cases lib options w with ⟨e, w₁, hx, ha⟩ | ⟨cx, w₁, hx, ha, hid, -⟩
  · exact ⟨_, _, hx, ⟨names, h.aside ha⟩, ha.held⟩
  · refine ⟨_, _, hx, ⟨_, (h.aside ha).bind hid⟩, ?_⟩
    exact congrArg (List.cons (.context cx)) ha.held

theorem performs_attachContext (h : Sound names log w) (lib : LibraryId) (raw : ContextRef)
    (options : ContextOptions) : (Primitive.attachContext lib raw options).Performs log w := by
  cases hl : w.registry.living? w.contextAlive (lib, raw) with
  | none =>
    have hw : Sound names log (w.emit (.attachedContext raw options.unknownValues)) :=
      h.congr rfl rfl rfl rfl
    exact ⟨_, _, apply_attachContext_fresh options hl, ⟨_, hw.bind rfl⟩, rfl⟩
  | some cx =>
    obtain ⟨r, hr, ho⟩ := h.exists_of_living? hl
    have hw : Sound names log (w.emit (.reusedBinding raw)) := h.congr rfl rfl rfl rfl
    exact ⟨_, _, apply_attachContext_living options hl,
      ⟨names, hw.hold (Or.inr ⟨r, hr, by rw [ho]⟩)⟩, rfl⟩

theorem performs_internType (h : Sound names log w) {cx : Context} (hcx : ∃ r ∈ w.held, r.owner = cx)
    (ty : TypeRef) : (Primitive.internType cx ty).Performs log w := by
  obtain ⟨x, w', hx, hg⟩ := gated_internType cx ty w
  refine ⟨x, w', hx, h.gated hcx hg, ?_⟩
  rw [hg.held]
  obtain _ | _ | t := x <;> rfl

theorem performs_internValue (h : Sound names log w) {cx : Context}
    (hcx : ∃ r ∈ w.held, r.owner = cx) (v : ValueRef) :
    (Primitive.internValue cx v).Performs log w := by
  obtain ⟨x, w', hx, hg⟩ := gated_internValue cx v w
  refine ⟨x, w', hx, h.gated hcx hg, ?_⟩
  rw [hg.held]
  obtain _ | _ | t := x <;> rfl

theorem performs_internBlock (h : Sound names log w) {cx : Context}
    (hcx : ∃ r ∈ w.held, r.owner = cx) (b : BlockRef) :
    (Primitive.internBlock cx b).Performs log w := by
  obtain ⟨x, w', hx, hg⟩ := gated_internBlock h hcx b
  refine ⟨x, w', hx, h.gatedBlock hcx hg, ?_⟩
  rw [hg.held]
  obtain _ | _ | bb := x <;> rfl

theorem performs_blockRef (h : Sound names log w) (bb : BasicBlock) :
    (Primitive.blockRef bb).Performs log w := by
  cases hb : w.blockRefs.get? bb.value.id with
  | some b => exact ⟨_, _, apply_blockRef_known hb, ⟨names, h⟩, rfl⟩
  | none =>
    rcases blockRef_cases hb with ⟨e, w₁, hx, ha⟩ | ⟨b, w₁, hx, ha⟩
    · exact ⟨_, _, hx, ⟨names, h.aside ha⟩, ha.held⟩
    · refine ⟨_, _, hx, ⟨names, (h.aside ha).noteBlockRef bb b⟩, ?_⟩
      exact (World.held_noteBlockRef w₁ bb b).trans ha.held

theorem performs_forgetValue (h : Sound names log w) (cx : Context) (v : ValueRef) :
    (Primitive.forgetValue cx v).Performs log w := by
  obtain ⟨e, hx⟩ := Action.apply_forgetValue cx v w
  exact ⟨_, _, hx, ⟨names, (h.forget cx v).congr rfl rfl rfl rfl⟩, rfl⟩

/-- Every primitive keeps a sound world sound, and takes and gives up the references it says. -/
theorem Sound.perform (h : Sound names log w) (a : Primitive) (ha : a.Allowed w.held) :
    a.Performs log w := by
  cases a with
  | call lib c => exact performs_call h lib c
  | emit e => exact ⟨_, _, rfl, ⟨names, h.congr rfl rfl rfl rfl⟩, rfl⟩
  | walkLimit lib => exact ⟨_, _, rfl, ⟨names, h⟩, rfl⟩
  | createContext lib options => exact performs_createContext h lib options
  | attachContext lib raw options => exact performs_attachContext h lib raw options
  | internType cx ty => exact performs_internType h ha ty
  | internValue cx v => exact performs_internValue h ha v
  | internBlock cx b => exact performs_internBlock h ha b
  | blockRef bb => exact performs_blockRef h bb
  | forgetValue cx v => exact performs_forgetValue h cx v
  | hold r => exact ⟨_, _, rfl, ⟨names, h.hold ha⟩, rfl⟩
  | release r => exact ⟨_, _, rfl, ⟨names, h.release r⟩, h.held_release ha⟩

end Perform

end CanonIR
