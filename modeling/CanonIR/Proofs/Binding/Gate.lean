import Mathlib.Order.Defs.Unbundled
import CanonIR.Binding.Gate
import CanonIR.Proofs.Binding.Place

/-!
What the gates do. A gate finds the wrapper that lives at its place, or classifies the object and
makes a wrapper; classification changes nothing but the state of the library and the log.
-/

namespace CanonIR

variable {σ : Type}

/-- Only the state of the libraries and the log differ. -/
def World.Aside (w w' : World σ) : Prop :=
  ∃ s e, w' = { w with native := s, events := e }

theorem World.Aside.refl (w : World σ) : w.Aside w := ⟨w.native, w.events, rfl⟩

theorem World.Aside.trans {w w' w'' : World σ} (h : w.Aside w') (h' : w'.Aside w'') :
    w.Aside w'' := by
  obtain ⟨s, e, rfl⟩ := h
  obtain ⟨s', e', rfl⟩ := h'
  exact ⟨s', e', rfl⟩

instance : IsPreorder (World σ) World.Aside where
  refl := World.Aside.refl
  trans _ _ _ := World.Aside.trans

theorem World.Aside.held {w w' : World σ} (h : w.Aside w') : w'.held = w.held := by
  obtain ⟨s, e, rfl⟩ := h
  rfl

namespace Action

variable {α β : Type}

/-! ## Making and forgetting wrappers -/

theorem apply_forgetValue (cx : Context) (h : ValueRef) (w : World σ) :
    ∃ e, (forgetValue cx h : Action σ Unit).apply w = (.ok (), { w.forgetValue cx h with events := e }) := by
  rw [forgetValue, apply_bind, apply_get]
  dsimp only
  rw [apply_bind, apply_update]
  dsimp only
  split
  · exact ⟨_, rfl⟩
  · exact ⟨w.events, rfl⟩

/-! ## Classification -/

/-- An action that relates every world to the one that it leads to. -/
def Within (P : World σ → World σ → Prop) (a : Action σ α) : Prop := ∀ w, P w (a.apply w).2

section Within

variable {P : World σ → World σ → Prop} [IsPreorder (World σ) P]

theorem within_pure (x : α) : Within P (pure x : Action σ α) := refl_of P

theorem within_throw (e : Fault) : Within P (throw e : Action σ α) := refl_of P

theorem within_get : Within P (get : Action σ (World σ)) := refl_of P

/-- A relation that can be composed relates the ends of two actions in a row. -/
theorem Within.bind {a : Action σ α} {f : α → Action σ β} (ha : Within P a)
    (hf : ∀ x, Within P (f x)) : Within P (a >>= f) := by
  intro w
  have h := ha w
  rw [apply_bind]
  generalize a.apply w = r at h ⊢
  obtain ⟨_ | x, w'⟩ := r
  · exact h
  · exact trans_of P h (hf x w')

theorem Within.map {a : Action σ α} (ha : Within P a) (f : α → β) : Within P (f <$> a) := by
  rw [← bind_pure_comp]
  exact ha.bind fun x => within_pure (f x)

/-- The walk over the probes does what its questions do. -/
theorem within_settle {ask : Probe → Action σ Bool} (h : ∀ p, Within P (ask p))
    (above : Option Probe) (f : Forest) : Within P (f.settle ask above) := by
  induction f generalizing above with
  | empty => exact within_pure above
  | tree p c r ihc ihr =>
    refine (h p).bind fun b => ?_
    cases b with
    | true => exact ihc (some p)
    | false => exact ihr above

variable [NativeSystem σ]

/-- Classification of a type does what its question does. -/
theorem within_classifyType {lib : LibraryId} {ty : TypeRef}
    (hc : Within P (call lib (.typeKind ty))) : Within P (classifyType lib ty) := by
  refine hc.bind fun n => ?_
  split
  · exact within_pure _
  · exact within_throw _

theorem within_classifyConstExpr {lib : LibraryId} {v : ValueRef}
    (hc : Within P (call lib (.constOpcode v))) : Within P (classifyConstExpr lib v) := by
  refine hc.bind fun n => ?_
  split
  · exact within_throw _
  · split
    · exact within_pure _
    · exact within_throw _

/-- Classification of a value does what its questions and the log do. -/
theorem within_classifyValue {lib : LibraryId} {v : ValueRef}
    (hp : ∀ p, Within P (call lib (.isA v p))) (hc : Within P (call lib (.constOpcode v)))
    (he : ∀ e, Within P (emit e)) (policy : UnknownValues) :
    Within P (classifyValue lib v policy) := by
  refine (within_settle hp none taxonomy).bind fun settled => ?_
  cases settled with
  | none =>
    cases policy with
    | reject => exact within_throw _
    | tolerate => exact (he _).bind fun _ => within_pure _
  | some p =>
    refine (he _).bind fun _ => ?_
    split
    · exact (within_classifyConstExpr hc).map _
    · exact within_pure _

end Within

/-- An action that changes nothing but the state of the libraries and the log. -/
def Asks (a : Action σ α) : Prop := ∀ w : World σ, w.Aside (a.apply w).2

theorem asks_emit (e : Event) : Asks (emit e : Action σ Unit) := fun w => ⟨w.native, _, rfl⟩

variable [NativeSystem σ]

/-- A call may change the library in any way, and changes nothing else. -/
theorem asks_call (lib : LibraryId) (c : Call) : Asks (call lib c : Action σ c.Answer) :=
  fun w => ⟨_, w.events, rfl⟩

theorem asks_classifyType (lib : LibraryId) (ty : TypeRef) :
    Asks (classifyType lib ty : Action σ TypeKind) :=
  within_classifyType (asks_call lib _)

theorem asks_classifyValue (lib : LibraryId) (v : ValueRef) (policy : UnknownValues) :
    Asks (classifyValue lib v policy : Action σ ValueKind) :=
  within_classifyValue (fun _ => asks_call lib _) (asks_call lib _) asks_emit policy

/-! ## The gate of types -/

variable {cx : Context} {w : World σ}

theorem apply_internType_null {h : TypeRef} (hn : h.isNull = true) :
    (internType cx h).apply w = (.ok none, w) := by
  rw [internType, if_pos hn, apply_pure]

/-- A hit takes one more reference to the wrapper that lives there, and asks nothing. -/
theorem apply_internType_hit {h : TypeRef} {t : TypeWrapper} (hn : h.isNull = false)
    (hl : (w.cachesOf cx).types.lookup w.typeAlive h.address = some t) :
    (internType cx h).apply w = (.ok (some t), w.hold (.type t)) := by
  rw [internType, if_neg (by simp [hn]), apply_bind, apply_get]
  dsimp only
  rw [hl]
  rfl

/-- After a miss the type is classified, and a wrapper is made only if that succeeds. -/
theorem apply_internType_miss {h : TypeRef} (hn : h.isNull = false)
    (hl : (w.cachesOf cx).types.lookup w.typeAlive h.address = none) :
    (internType cx h).apply w =
      match (classifyType cx.library h).apply w with
      | (.ok kind, w) =>
        let t : TypeWrapper := ⟨w.nextId, cx, h, kind⟩
        (.ok (some t), ((w.emit (.internedType h kind)).made (.type t)).enterType t)
      | (.error e, w) => (.error e, w) := by
  rw [internType, if_neg (by simp [hn]), apply_bind, apply_get]
  dsimp only
  rw [hl]
  dsimp only
  rw [apply_bind]
  rcases (classifyType cx.library h).apply w with ⟨_ | _, _⟩ <;> rfl

/-! ## The gate of values -/

theorem apply_internValue_null {h : ValueRef} (hn : h.isNull = true) :
    (internValue cx h).apply w = (.ok none, w) := by
  rw [internValue, if_pos hn, apply_pure]

/-- A hit, as at the gate of types. -/
theorem apply_internValue_hit {h : ValueRef} {v : ValueWrapper} (hn : h.isNull = false)
    (hl : (w.cachesOf cx).values.lookup w.valueAlive h.address = some v) :
    (internValue cx h).apply w = (.ok (some v), w.hold (.value v)) := by
  rw [internValue, if_neg (by simp [hn]), apply_bind, apply_get]
  dsimp only
  rw [hl]
  rfl

/-- A miss, as at the gate of types; the value is classified under the policy of the context. -/
theorem apply_internValue_miss {h : ValueRef} (hn : h.isNull = false)
    (hl : (w.cachesOf cx).values.lookup w.valueAlive h.address = none) :
    (internValue cx h).apply w =
      match (classifyValue cx.library h cx.options.unknownValues).apply w with
      | (.ok kind, w) =>
        let v : ValueWrapper := ⟨w.nextId, cx, h, kind⟩
        (.ok (some v), ((w.emit (.internedValue h kind)).made (.value v)).enterValue v)
      | (.error e, w) => (.error e, w) := by
  rw [internValue, if_neg (by simp [hn]), apply_bind, apply_get]
  dsimp only
  rw [hl]
  dsimp only
  rw [apply_bind]
  rcases (classifyValue cx.library h cx.options.unknownValues).apply w with ⟨_ | _, _⟩ <;> rfl

/-! ## Blocks -/

theorem apply_internBlock_null {b : BlockRef} (hn : b.isNull = true) :
    (internBlock cx b).apply w = (.ok none, w) := by
  rw [internBlock, if_pos hn, apply_pure]

/-- The gate of blocks, after the value shape was asked for. -/
def blockOf (cx : Context) (b : BlockRef) (h : ValueRef) : Action σ (Option BasicBlock) := do
  match ← downcast .basicBlock (← internValue cx h) with
  | none => return none
  | some bb =>
    update (World.noteBlockRef bb b)
    return some bb

/-- The library is asked for the value shape first. -/
theorem apply_internBlock {b : BlockRef} (hn : b.isNull = false) :
    (internBlock cx b).apply w =
      match (call cx.library (.blockAsValue b)).apply w with
      | (.ok h, w) => (blockOf cx b h).apply w
      | (.error e, w) => (.error e, w) := by
  rw [internBlock, if_neg (by simp [hn]), apply_bind]
  generalize (call cx.library (.blockAsValue b)).apply w = r
  obtain ⟨_ | h, w'⟩ := r <;> rfl

/-- The wrapper of the value shape is noted to be of the block, if it is one of a block at all. -/
theorem apply_blockOf (b : BlockRef) (h : ValueRef) :
    (blockOf cx b h).apply w =
      match (internValue cx h).apply w with
      | (.ok none, w) => (.ok none, w)
      | (.ok (some v), w) =>
        match v.downcast? .basicBlock with
        | some bb => (.ok (some bb), w.noteBlockRef bb b)
        | none => (.ok none, w.release (.value v))
      | (.error e, w) => (.error e, w) := by
  rw [blockOf, apply_bind]
  obtain ⟨_ | _ | v, w'⟩ := (internValue cx h).apply w
  · rfl
  · rfl
  · dsimp only
    rw [apply_bind, downcast, Viewed.ofWrapper]
    cases v.downcast? .basicBlock <;> rfl

/-- A block shape that is known is returned without a call. -/
theorem apply_blockRef (bb : BasicBlock) :
    (blockRef bb).apply w =
      match w.blockRefs.get? bb.value.id with
      | some b => (.ok b, w)
      | none =>
        match (call bb.value.context.library (.valueAsBlock bb.value.handle)).apply w with
        | (.ok b, w) => (.ok b, (w.emit (.convertedBlock bb.value.handle b)).noteBlockRef bb b)
        | (.error e, w) => (.error e, w) := by
  rw [blockRef, apply_bind, apply_get]
  dsimp only
  cases w.blockRefs.get? bb.value.id with
  | some b => rfl
  | none =>
    dsimp only
    rw [apply_bind]
    rcases (call bb.value.context.library (.valueAsBlock bb.value.handle)).apply w with
      ⟨_ | _, _⟩ <;> rfl

end Action

end CanonIR
