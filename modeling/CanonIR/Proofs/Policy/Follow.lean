import CanonIR.Binding.Blocks
import CanonIR.Proofs.Binding.Gate
import CanonIR.Proofs.Binding.Operation
import CanonIR.Proofs.Policy.Under

/-!
Actions and operations that follow others. An action follows another if it does with tolerance what
the other does, unless the other fails on an unknown value: its outcome, and the world that it
leaves, are those of the other put under the tolerant policy. Every gate and every operation, given
tolerant objects, follows itself.
-/

namespace CanonIR

open UnknownValues (tolerate)

/-- A failure on an unknown value. -/
def Fault.isUnclassified : Fault → Bool
  | .drift (.unclassifiedValue _) => true
  | _ => false

/-- Whether an outcome is the failure on an unknown value. -/
def unclassified {α : Type} : Except Fault α → Bool
  | .error e => e.isUnclassified
  | .ok _ => false

namespace Action

variable {σ α β : Type} [Policed α] [Policed β]

/-- The second action does with tolerance what the first does, unless this fails on an unknown value.
-/
def Follows (a a' : Action σ α) : Prop :=
  ∀ w, unclassified (a.apply w).1 = false → a'.apply (under tolerate w) = under tolerate (a.apply w)

theorem follows_pure (x : α) : Follows (pure x : Action σ α) (pure (under tolerate x)) :=
  fun _ _ => rfl

theorem follows_throw (e : Fault) : Follows (throw e : Action σ α) (throw e) := fun _ _ => rfl

/-- The state may be read, since what is read is put under the policy as well. -/
theorem follows_get : Follows (get : Action σ (World σ)) get := fun _ _ => rfl

/-- A change of the state that can be made before or after the policy is put. -/
theorem follows_update {f f' : World σ → World σ}
    (h : ∀ w, f' (under tolerate w) = under tolerate (f w)) : Follows (update f) (update f') := by
  intro w _
  rw [apply_update, apply_update, h]
  rfl

theorem follows_freshId : Follows (freshId : Action σ Nat) freshId := fun _ _ => rfl

theorem follows_emit (e : Event) : Follows (emit e : Action σ Unit) (emit (under tolerate e)) :=
  follows_update (World.under_emit tolerate · e)

theorem follows_hold (r : Reference) :
    Follows (hold r : Action σ Unit) (hold (under tolerate r)) :=
  follows_update (World.under_hold tolerate · r)

/-- Where the first action fails, both sides end with its fault; only a result is gone on with, and
comes to the second side put under the policy. -/
theorem Follows.bind {a a' : Action σ α} {f f' : α → Action σ β} (ha : Follows a a')
    (hf : ∀ x, Follows (f x) (f' (under tolerate x))) : Follows (a >>= f) (a' >>= f') := by
  intro w hw
  have h := ha w
  rw [apply_bind] at hw ⊢
  rw [apply_bind]
  generalize a.apply w = r at h hw ⊢
  obtain ⟨e | x, w'⟩ := r
  · rw [h hw]
    rfl
  · rw [h rfl]
    exact hf x w' hw

theorem Follows.map {a a' : Action σ α} {f f' : α → β} (ha : Follows a a')
    (hf : ∀ x, f' (under tolerate x) = under tolerate (f x)) : Follows (f <$> a) (f' <$> a') := by
  rw [← bind_pure_comp, ← bind_pure_comp]
  refine ha.bind fun x => ?_
  show Follows (pure (f x)) (pure (f' (under tolerate x)))
  rw [hf]
  exact follows_pure (f x)

/-! ## Classification -/

variable [NativeSystem σ]

/-- The library is the same on both sides, so it answers the same and changes alike. -/
theorem follows_call (lib : LibraryId) (c : Call) :
    Follows (call lib c : Action σ c.Answer) (call lib c) := by
  intro w _
  rw [apply_call, apply_call, World.under_native]
  cases (NativeSystem.perform lib c w.native).1 <;> rfl

theorem follows_walkLimit (lib : LibraryId) :
    Follows (walkLimit lib : Action σ Nat) (walkLimit lib) := fun _ _ => rfl

/-- The end of a context that a release leads to is that of the same context. -/
theorem follows_release (r : Reference) :
    Follows (release r : Action σ Unit) (release (under tolerate r)) :=
  follows_update (World.under_release tolerate · r)

/-- Types are classified without regard to the policy: an unknown kind fails on both sides. -/
theorem follows_classifyType (lib : LibraryId) (ty : TypeRef) :
    Follows (classifyType lib ty : Action σ TypeKind) (classifyType lib ty) := by
  refine (follows_call lib (.typeKind ty)).bind fun (n : Nat) => ?_
  cases hk : TypeKind.ofNumber? n with
  | none => simpa only [under, id, hk] using follows_throw _
  | some k => simpa only [under, id, hk] using follows_pure k

/-- Opcodes that are unknown or impossible are failures on both sides; no policy tolerates them. -/
theorem follows_classifyConstExpr (lib : LibraryId) (v : ValueRef) :
    Follows (classifyConstExpr lib v : Action σ ConstExprKind) (classifyConstExpr lib v) := by
  refine (follows_call lib (.constOpcode v)).bind fun (n : Nat) => ?_
  cases ho : Opcode.ofNumber? n with
  | none => simpa only [under, id, ho] using follows_throw _
  | some o =>
    cases hk : o.constExpr? with
    | none => simpa only [under, id, ho, hk] using follows_throw _
    | some k => simpa only [under, id, ho, hk] using follows_pure k

/-- The walk over the probes asks the library alone. It is by recursion on the forest, with the last
probe that held. -/
theorem follows_settle (lib : LibraryId) (v : ValueRef) (above : Option Probe) (f : Forest) :
    Follows (f.settle (fun p => (call lib (.isA v p) : Action σ Bool)) above)
      (f.settle (fun p => call lib (.isA v p)) above) := by
  induction f generalizing above with
  | empty => cases above <;> exact follows_pure _
  | tree p c r ihc ihr =>
    refine (follows_call lib (.isA v p)).bind fun (b : Bool) => ?_
    cases b with
    | true => exact ihc (some p)
    | false => exact ihr above

omit [NativeSystem σ] in
/-- Only a value that belongs to no class is classified by the policy, and such a value is rejected
or tolerated. -/
theorem follows_classifyUnknown (v : ValueRef) (policy : UnknownValues) :
    Follows (classifyUnknown v policy : Action σ ValueKind) (classifyUnknown v tolerate) := by
  cases policy with
  | reject => exact fun w hw => nomatch hw
  | tolerate => exact (follows_emit _).bind fun _ => follows_pure _

/-- The policy comes in where no class holds, and nowhere else. -/
theorem follows_classifyValue (lib : LibraryId) (v : ValueRef) (policy : UnknownValues) :
    Follows (classifyValue lib v policy : Action σ ValueKind) (classifyValue lib v tolerate) := by
  refine (follows_settle lib v none taxonomy).bind fun settled => ?_
  cases settled with
  | none => exact follows_classifyUnknown v policy
  | some p =>
    refine (follows_emit (.chainSettled v p)).bind fun _ => ?_
    show Follows (if p = .constantExpr then _ else _) (if p = .constantExpr then _ else _)
    split
    · exact (follows_classifyConstExpr lib v).map fun _ => rfl
    · exact follows_pure (ValueKind.ofClass p)

/-! ## Gates -/

omit [NativeSystem σ] in
/-- Numbers for identities are drawn alike on both sides, so new wrappers differ in the policies of
their contexts alone. -/
theorem follows_wrapType (cx : Context) (h : TypeRef) (kind : TypeKind) :
    Follows (wrapType cx h kind : Action σ TypeWrapper) (wrapType (under tolerate cx) h kind) :=
  follows_freshId.bind fun id =>
    (follows_hold (.type ⟨id, cx, h, kind⟩)).bind fun _ =>
      (follows_update (World.under_enterType tolerate · ⟨id, cx, h, kind⟩)).bind fun _ =>
        follows_pure (⟨id, cx, h, kind⟩ : TypeWrapper)

omit [NativeSystem σ] in
theorem follows_wrapValue (cx : Context) (h : ValueRef) (kind : ValueKind) :
    Follows (wrapValue cx h kind : Action σ ValueWrapper) (wrapValue (under tolerate cx) h kind) :=
  follows_freshId.bind fun id =>
    (follows_hold (.value ⟨id, cx, h, kind⟩)).bind fun _ =>
      (follows_update (World.under_enterValue tolerate · ⟨id, cx, h, kind⟩)).bind fun _ =>
        follows_pure (⟨id, cx, h, kind⟩ : ValueWrapper)

/-- The gate of types hits on both sides or on none. After a miss both classify, and the new
wrappers have the same identity. -/
theorem follows_internType (cx : Context) (h : TypeRef) :
    Follows (internType cx h : Action σ (Option TypeWrapper))
      (internType (under tolerate cx) h) := by
  unfold internType
  cases h.isNull with
  | true => exact follows_pure (none : Option TypeWrapper)
  | false =>
    refine follows_get.bind fun w => ?_
    have hl : ((under tolerate w).cachesOf (under tolerate cx)).types.lookup
        (under tolerate w).typeAlive h.address =
          under tolerate ((w.cachesOf cx).types.lookup w.typeAlive h.address) :=
      w.under_lookup_types tolerate cx h
    rw [hl]
    cases (w.cachesOf cx).types.lookup w.typeAlive h.address with
    | some t => exact (follows_hold (.type t)).bind fun _ => follows_pure (some t)
    | none =>
      exact (follows_classifyType cx.library h).bind fun kind =>
        (follows_emit (.internedType h kind)).bind fun _ =>
          (follows_wrapType cx h kind).bind fun t => follows_pure (some t)

/-- The gate of values, likewise; it asks the context for its policy only after a miss. -/
theorem follows_internValue (cx : Context) (h : ValueRef) :
    Follows (internValue cx h : Action σ (Option ValueWrapper))
      (internValue (under tolerate cx) h) := by
  unfold internValue
  cases h.isNull with
  | true => exact follows_pure (none : Option ValueWrapper)
  | false =>
    refine follows_get.bind fun w => ?_
    have hl : ((under tolerate w).cachesOf (under tolerate cx)).values.lookup
        (under tolerate w).valueAlive h.address =
          under tolerate ((w.cachesOf cx).values.lookup w.valueAlive h.address) :=
      w.under_lookup_values tolerate cx h
    rw [hl]
    cases (w.cachesOf cx).values.lookup w.valueAlive h.address with
    | some v => exact (follows_hold (.value v)).bind fun _ => follows_pure (some v)
    | none =>
      exact (follows_classifyValue cx.library h cx.options.unknownValues).bind fun kind =>
        (follows_emit (.internedValue h kind)).bind fun _ =>
          (follows_wrapValue cx h kind).bind fun v => follows_pure (some v)

/-- A wrapper that does not fit is given up on both sides. -/
theorem follows_downcast (V : View) (v : Option ValueWrapper) :
    Follows (downcast V v : Action σ (Option (Viewed V))) (downcast V (under tolerate v)) := by
  cases v with
  | none => exact follows_pure (none : Option (Viewed V))
  | some v =>
    have hv : under tolerate (some v) = some (under tolerate v) := rfl
    rw [hv]
    unfold downcast Viewed.ofWrapper
    dsimp only
    rw [ValueWrapper.under_downcast?]
    cases v.downcast? V with
    | some x => exact follows_pure (some x)
    | none => exact (follows_release (.value v)).bind fun _ => follows_pure none

/-- The gate of blocks is the gate of values of the value shape, between a call and a note. -/
theorem follows_internBlock (cx : Context) (b : BlockRef) :
    Follows (internBlock cx b : Action σ (Option BasicBlock))
      (internBlock (under tolerate cx) b) := by
  unfold internBlock
  cases b.isNull with
  | true => exact follows_pure (none : Option BasicBlock)
  | false =>
    refine (follows_call cx.library (.blockAsValue b)).bind fun h => ?_
    refine (follows_internValue cx h).bind fun v => (follows_downcast .basicBlock v).bind fun x => ?_
    cases x with
    | none => exact follows_pure (none : Option BasicBlock)
    | some bb =>
      exact (follows_update (World.under_noteBlockRef tolerate · bb b)).bind fun _ =>
        follows_pure (some bb)

/-- The block shape is known on both sides, or is converted on both and noted under one identity. -/
theorem follows_blockRef (bb : BasicBlock) :
    Follows (blockRef bb : Action σ BlockRef) (blockRef (under tolerate bb)) := by
  refine follows_get.bind fun w => ?_
  have hb : (under tolerate w).blockRefs.get? (under tolerate bb).value.id =
      w.blockRefs.get? bb.value.id := rfl
  rw [hb]
  cases w.blockRefs.get? bb.value.id with
  | some b => exact follows_pure b
  | none =>
    exact (follows_call bb.value.context.library (.valueAsBlock bb.value.handle)).bind fun b =>
      (follows_emit (.convertedBlock bb.value.handle b)).bind fun _ =>
        (follows_update (World.under_noteBlockRef tolerate · bb b)).bind fun _ => follows_pure b

omit [NativeSystem σ] in
/-- The event comes on both sides or on none, as the cache has the value or not. -/
theorem follows_forgetValue (cx : Context) (h : ValueRef) :
    Follows (forgetValue cx h : Action σ Unit) (forgetValue (under tolerate cx) h) := by
  refine follows_get.bind fun w => (follows_update (World.under_forgetValue tolerate · cx h)).bind
    fun _ => ?_
  have hk : (under tolerate w).hasValue (under tolerate cx) h = w.hasValue cx h :=
    w.under_hasValue tolerate cx h
  rw [hk]
  split
  · exact follows_emit (.forgotValue h)
  · exact follows_pure ()

/-! ## Contexts -/

omit [NativeSystem σ] in
/-- The registry enters a binding under its key, and the caches begin empty. -/
theorem follows_bindContext (lib : LibraryId) (raw : ContextRef) (owned : Bool)
    (options : ContextOptions) :
    Follows (bindContext lib raw owned options : Action σ Context)
      (bindContext lib raw owned (under tolerate options)) := by
  refine follows_freshId.bind fun id => ?_
  let cx : Context := ⟨id, lib, raw, owned, options⟩
  refine (follows_hold (.context cx)).bind fun _ => ?_
  refine (follows_update fun w => ?_).bind fun _ => follows_pure cx
  exact congrArg₂ (fun r t => { under tolerate w with registry := r, caches := t })
      (w.registry.enter_under tolerate cx) (congrArg World.caches (w.under_setCaches tolerate cx {}))

/-- A new context has the tolerant policy from its options; the event tells it, too. -/
theorem follows_createContext (lib : LibraryId) (options : ContextOptions) :
    Follows (createContext lib options : Action σ Context)
      (createContext lib (under tolerate options)) :=
  (follows_call lib .createContext).bind fun raw =>
    (follows_emit (.createdContext raw options.unknownValues)).bind fun _ =>
      follows_bindContext lib raw true options

omit [NativeSystem σ] in
/-- An attachment asks the registry for the native context, not for its options; a living binding
that it finds has options of its own. -/
theorem follows_attachContext (lib : LibraryId) (raw : ContextRef) (options : ContextOptions) :
    Follows (attachContext lib raw options : Action σ Context)
      (attachContext lib raw (under tolerate options)) := by
  refine follows_get.bind fun w => ?_
  have hl : (under tolerate w).registry.living? (under tolerate w).contextAlive (lib, raw) =
      under tolerate (w.registry.living? w.contextAlive (lib, raw)) :=
    w.registry.living?_under tolerate (w.under_contextAlive tolerate) _
  rw [hl]
  cases w.registry.living? w.contextAlive (lib, raw) with
  | some cx =>
    exact (follows_emit (.reusedBinding raw)).bind fun _ =>
      (follows_hold (.context cx)).bind fun _ => follows_pure cx
  | none =>
    exact (follows_emit (.attachedContext raw options.unknownValues)).bind fun _ =>
      follows_bindContext lib raw false options

end Action

/-! ## Operations -/

namespace Operation

variable {α β : Type} [Policed α] [Policed β]

/-- The second operation, run as one action, does with tolerance what the first does, unless this
fails on an unknown value. -/
def Follows (op op' : Operation α) : Prop :=
  ∀ (σ : Type) [NativeSystem σ], Action.Follows (op.action : Action σ α) op'.action

theorem follows_pure (x : α) : Follows (pure x) (pure (under tolerate x)) := fun _ _ _ _ => rfl

/-- A fault is not an object, so it is the same on both sides. -/
theorem follows_fail (e : Fault) : Follows (fail e : Operation α) (fail e) := fun _ _ _ _ => rfl

variable {op op' : Operation α}

/-- As for actions: only a result is gone on with. -/
theorem Follows.bind {f f' : α → Operation β} (h : Follows op op')
    (hf : ∀ x, Follows (f x) (f' (under tolerate x))) : Follows (op >>= f) (op' >>= f') := by
  intro σ _ w hw
  have h := h σ w
  rw [apply_bind] at hw ⊢
  rw [apply_bind]
  generalize op.action.apply w = r at h hw ⊢
  obtain ⟨e | x, w'⟩ := r
  · rw [h hw]
    rfl
  · rw [h rfl]
    exact hf x σ w' hw

theorem Follows.map {f f' : α → β} (h : Follows op op')
    (hf : ∀ x, f' (under tolerate x) = under tolerate (f x)) : Follows (f <$> op) (f' <$> op') := by
  refine h.bind fun x => ?_
  show Follows (pure (f x)) (pure (f' (under tolerate x)))
  rw [hf]
  exact follows_pure (f x)

/-- The reference is given up on both sides, whatever came out. -/
theorem Follows.releasing (h : Follows op op') (r : Reference) :
    Follows (releasing r op) (releasing (under tolerate r) op') := by
  intro σ _ w hw
  rw [apply_releasing] at hw ⊢
  rw [apply_releasing, h σ w hw]
  exact congrArg (Prod.mk _) (World.under_release tolerate _ r)

/-- The reference is given up on both sides, or kept on both for the result. -/
theorem Follows.orRelease (h : Follows op op') (r : Reference) :
    Follows (orRelease r op) (orRelease (under tolerate r) op') := by
  intro σ _ w hw
  have h := h σ w
  rw [apply_orRelease] at hw ⊢
  rw [apply_orRelease]
  generalize op.action.apply w = x at h hw ⊢
  obtain ⟨e | x, w'⟩ := x
  · rw [h hw]
    exact congrArg (Prod.mk _) (World.under_release tolerate _ r)
  · rw [h rfl]
    rfl

/-! ### Primitives

An operation of one primitive follows another if the actions do. -/

theorem follows_call (lib : LibraryId) (c : Call) : Follows (call lib c) (call lib c) :=
  fun _ _ => Action.follows_call lib c

theorem follows_emit (e : Event) : Follows (emit e) (emit (under tolerate e)) :=
  fun _ _ => Action.follows_emit e

theorem follows_walkLimit (lib : LibraryId) : Follows (walkLimit lib) (walkLimit lib) :=
  fun _ _ => Action.follows_walkLimit lib

theorem follows_createContext (lib : LibraryId) (options : ContextOptions) :
    Follows (createContext lib options) (createContext lib (under tolerate options)) :=
  fun _ _ => Action.follows_createContext lib options

theorem follows_attachContext (lib : LibraryId) (raw : ContextRef) (options : ContextOptions) :
    Follows (attachContext lib raw options) (attachContext lib raw (under tolerate options)) :=
  fun _ _ => Action.follows_attachContext lib raw options

theorem follows_internType (cx : Context) (h : TypeRef) :
    Follows (internType cx h) (internType (under tolerate cx) h) :=
  fun _ _ => Action.follows_internType cx h

theorem follows_internValue (cx : Context) (h : ValueRef) :
    Follows (internValue cx h) (internValue (under tolerate cx) h) :=
  fun _ _ => Action.follows_internValue cx h

theorem follows_internBlock (cx : Context) (b : BlockRef) :
    Follows (internBlock cx b) (internBlock (under tolerate cx) b) :=
  fun _ _ => Action.follows_internBlock cx b

theorem follows_blockRef (bb : BasicBlock) : Follows (blockRef bb) (blockRef (under tolerate bb)) :=
  fun _ _ => Action.follows_blockRef bb

theorem follows_forgetValue (cx : Context) (h : ValueRef) :
    Follows (forgetValue cx h) (forgetValue (under tolerate cx) h) :=
  fun _ _ => Action.follows_forgetValue cx h

theorem follows_hold (r : Reference) : Follows (hold r) (hold (under tolerate r)) :=
  fun _ _ => Action.follows_hold r

theorem follows_release (r : Reference) : Follows (release r) (release (under tolerate r)) :=
  fun _ _ => Action.follows_release r

theorem follows_downcast (V : View) (v : Option ValueWrapper) :
    Follows (downcast V v) (downcast V (under tolerate v)) := by
  cases v with
  | none => exact follows_pure (none : Option (Viewed V))
  | some v =>
    have hv : under tolerate (some v) = some (under tolerate v) := rfl
    rw [hv]
    unfold downcast Viewed.ofWrapper
    dsimp only
    rw [ValueWrapper.under_downcast?]
    cases v.downcast? V with
    | some x => exact follows_pure (some x)
    | none => exact (follows_release (.value v)).bind fun _ => follows_pure none

/-- A question goes to the library of the context, which no policy changes. -/
theorem follows_ask (v : ValueWrapper) (c : Call) : Follows (ask v c) (ask (under tolerate v) c) :=
  follows_call v.context.library c

/-! ### Types and values -/

/-- Only integer types are asked for their width, and types keep their kinds. -/
theorem follows_intWidth? (t : TypeWrapper) :
    Follows (intWidth? t) (intWidth? (under tolerate t)) := by
  show Follows (if t.kind = .integer then _ else _) (if t.kind = .integer then _ else _)
  split
  · exact (follows_call t.context.library (.intTypeWidth t.handle)).bind fun n =>
      follows_pure (some n)
  · exact follows_pure none

theorem follows_typeOf (v : ValueWrapper) : Follows (typeOf v) (typeOf (under tolerate v)) :=
  (follows_ask v (.typeOf v.handle)).bind fun h => follows_internType v.context h

/-- The next use is asked for before the user is gated, so a gate that fails has moved the walk on
both sides. -/
theorem follows_stepUse (v : ValueWrapper) (u : UseRef) :
    Follows (stepUse v u) (stepUse (under tolerate v) u) :=
  (follows_ask v (.nextUse u)).bind fun next => (follows_ask v (.useUser u)).bind fun h =>
    (follows_internValue v.context h).bind fun user => follows_pure (next, user)

/-- The walk goes by the uses of the library, which are the same; the induction is on its bound. A
user that comes out is kept, or given up if the rest fails. -/
theorem follows_usersFrom (v : ValueWrapper) (limit : Nat) (u : UseRef) :
    Follows (usersFrom v limit u) (usersFrom (under tolerate v) limit u) := by
  induction limit generalizing u with
  | zero =>
    unfold usersFrom
    split
    · exact follows_pure []
    · exact follows_fail _
  | succ limit ih =>
    unfold usersFrom
    split
    · exact follows_pure []
    · refine (follows_stepUse v u).bind fun x => ?_
      obtain ⟨next, _ | user⟩ := x
      · exact ih next
      · exact ((ih next).bind fun users => follows_pure (user :: users)).orRelease (.value user)

theorem follows_users (v : ValueWrapper) : Follows (users v) (users (under tolerate v)) :=
  (follows_ask v (.firstUse v.handle)).bind fun first =>
    (follows_walkLimit v.context.library).bind fun limit => follows_usersFrom v limit first

/-! ### Instructions and terminators -/

/-- Numbers from the library are decoded without a policy, here and for predicates. -/
theorem follows_opcode? (i : Instruction) : Follows (opcode? i) (opcode? (under tolerate i)) := by
  refine (follows_ask i.value (.instructionOpcode i.value.handle)).bind fun (n : Nat) => ?_
  show Follows (pure (Opcode.ofNumber? n)) (pure (Opcode.ofNumber? n))
  cases Opcode.ofNumber? n <;> exact follows_pure _

theorem follows_parentBlock (i : Instruction) :
    Follows (parentBlock i) (parentBlock (under tolerate i)) :=
  (follows_ask i.value (.instructionParent i.value.handle)).bind fun b =>
    follows_internBlock i.value.context b

theorem follows_nextInstruction (i : Instruction) :
    Follows (nextInstruction i) (nextInstruction (under tolerate i)) :=
  (follows_ask i.value (.nextInstruction i.value.handle)).bind fun h =>
    follows_internValue i.value.context h

/-- By induction on the operand positions that are left. -/
theorem follows_successorsAt (t : Terminator) (is : List Nat) :
    Follows (successorsAt t is) (successorsAt (under tolerate t) is) := by
  induction is with
  | nil => exact follows_pure []
  | cons i is ih =>
    unfold successorsAt
    refine (follows_ask t.value (.successor t.value.handle i)).bind fun b => ?_
    refine (follows_internBlock t.value.context b).bind fun x => ?_
    cases x with
    | none => exact ih
    | some bb => exact (ih.bind fun bs => follows_pure (bb :: bs)).orRelease (.value bb.value)

theorem follows_terminatorSuccessors (t : Terminator) :
    Follows (terminatorSuccessors t) (terminatorSuccessors (under tolerate t)) :=
  (follows_ask t.value (.successorCount t.value.handle)).bind fun count =>
    follows_successorsAt t (List.range count)

theorem follows_iCmpPredicate? (c : Viewed .iCmp) :
    Follows (iCmpPredicate? c) (iCmpPredicate? (under tolerate c)) := by
  refine (follows_ask c.value (.iCmpPredicate c.value.handle)).bind fun (n : Nat) => ?_
  show Follows (pure (IntPredicate.ofNumber? n)) (pure (IntPredicate.ofNumber? n))
  cases IntPredicate.ofNumber? n <;> exact follows_pure _

theorem follows_fCmpPredicate? (c : Viewed .fCmp) :
    Follows (fCmpPredicate? c) (fCmpPredicate? (under tolerate c)) := by
  refine (follows_ask c.value (.fCmpPredicate c.value.handle)).bind fun (n : Nat) => ?_
  show Follows (pure (RealPredicate.ofNumber? n)) (pure (RealPredicate.ofNumber? n))
  cases RealPredicate.ofNumber? n <;> exact follows_pure _

/-! ### Blocks -/

theorem follows_parent (bb : BasicBlock) : Follows (parent bb) (parent (under tolerate bb)) :=
  (follows_blockRef bb).bind fun b => (follows_ask bb.value (.blockParent b)).bind fun h =>
    follows_internValue bb.value.context h

/-- The terminator is gated as a value, so it may be an unknown one. -/
theorem follows_terminator (bb : BasicBlock) :
    Follows (terminator bb) (terminator (under tolerate bb)) :=
  (follows_blockRef bb).bind fun b => (follows_ask bb.value (.blockTerminator b)).bind fun h =>
    (follows_internValue bb.value.context h).bind fun v => follows_downcast .terminator v

/-- The terminator is given up once its successors are gated, or one of them has failed. -/
theorem follows_successors (bb : BasicBlock) :
    Follows (successors bb) (successors (under tolerate bb)) := by
  refine (follows_terminator bb).bind fun x => ?_
  cases x with
  | none => exact follows_pure []
  | some t => exact (follows_terminatorSuccessors t).releasing (.value t.value)

/-- Whether a user ends a block is told by its kind. -/
theorem follows_predecessorOf (user : ValueWrapper) :
    Follows (predecessorOf user) (predecessorOf (under tolerate user)) := by
  unfold predecessorOf
  have hk : (under tolerate user).isA (.ofClass .terminatorInst) =
      user.isA (.ofClass .terminatorInst) := rfl
  rw [hk, ValueWrapper.under_downcast?]
  split
  · cases user.downcast? .instruction with
    | some i => exact follows_parentBlock i
    | none => exact follows_pure none
  · exact follows_pure none

/-- The walk over the uses of a block, with the blocks found so far put under the policy. -/
theorem follows_predecessorsFrom (bb : BasicBlock) (limit : Nat) (found : List BasicBlock)
    (u : UseRef) : Follows (predecessorsFrom bb limit found u)
      (predecessorsFrom (under tolerate bb) limit (under tolerate found) u) := by
  induction limit generalizing found u with
  | zero =>
    unfold predecessorsFrom
    split
    · exact follows_pure []
    · exact follows_fail _
  | succ limit ih =>
    unfold predecessorsFrom
    split
    · exact follows_pure []
    · refine (follows_stepUse bb.value u).bind fun x => ?_
      obtain ⟨next, _ | user⟩ := x
      · exact ih found next
      · refine ((follows_predecessorOf user).releasing (.value user)).bind fun p => ?_
        cases p with
        | none => exact ih found next
        | some p =>
          -- Blocks found before are told apart by their identities.
          have hany : (under tolerate found).any (·.value.id == (under tolerate p).value.id) =
              found.any (·.value.id == p.value.id) := List.any_map
          show Follows (if found.any (·.value.id == p.value.id) then _ else _)
            (if (under tolerate found).any (·.value.id == (under tolerate p).value.id) then _ else _)
          rw [hany]
          split
          · exact (follows_release (.value p.value)).bind fun _ => ih found next
          · refine Follows.orRelease (Follows.bind ?_ fun ps => follows_pure (p :: ps))
              (.value p.value)
            have h := ih (found ++ [p]) next
            rwa [show under tolerate (found ++ [p]) = under tolerate found ++ [under tolerate p] from
              List.map_append] at h

theorem follows_predecessors (bb : BasicBlock) :
    Follows (predecessors bb) (predecessors (under tolerate bb)) :=
  (follows_ask bb.value (.firstUse bb.value.handle)).bind fun first =>
    (follows_walkLimit bb.value.context.library).bind fun limit =>
      follows_predecessorsFrom bb limit [] first

theorem follows_next (bb : BasicBlock) : Follows (next bb) (next (under tolerate bb)) :=
  (follows_blockRef bb).bind fun b => (follows_ask bb.value (.nextBlock b)).bind fun b' =>
    follows_internBlock bb.value.context b'

theorem follows_previous (bb : BasicBlock) : Follows (previous bb) (previous (under tolerate bb)) :=
  (follows_blockRef bb).bind fun b => (follows_ask bb.value (.previousBlock b)).bind fun b' =>
    follows_internBlock bb.value.context b'

theorem follows_firstInstruction (bb : BasicBlock) :
    Follows (firstInstruction bb) (firstInstruction (under tolerate bb)) :=
  (follows_blockRef bb).bind fun b => (follows_ask bb.value (.firstInstruction b)).bind fun h =>
    follows_internValue bb.value.context h

theorem follows_lastInstruction (bb : BasicBlock) :
    Follows (lastInstruction bb) (lastInstruction (under tolerate bb)) :=
  (follows_blockRef bb).bind fun b => (follows_ask bb.value (.lastInstruction b)).bind fun h =>
    follows_internValue bb.value.context h

/-- The next instruction is gated while the current one is held; the induction is on the bound of
the walk. -/
theorem follows_instructionsFrom (limit : Nat) (v : ValueWrapper) :
    Follows (instructionsFrom limit v) (instructionsFrom limit (under tolerate v)) := by
  induction limit generalizing v with
  | zero =>
    unfold instructionsFrom
    exact (follows_fail _).orRelease (.value v)
  | succ limit ih =>
    unfold instructionsFrom
    refine Follows.orRelease ?_ (.value v)
    dsimp only
    rw [ValueWrapper.under_downcast?]
    cases v.downcast? .instruction with
    | none => exact follows_pure [v]
    | some i =>
      refine (follows_nextInstruction i).bind fun x => ?_
      cases x with
      | none => exact follows_pure [v]
      | some next => exact (ih next).bind fun vs => follows_pure (v :: vs)

theorem follows_instructions (bb : BasicBlock) :
    Follows (instructions bb) (instructions (under tolerate bb)) := by
  refine (follows_walkLimit bb.value.context.library).bind fun limit =>
    (follows_firstInstruction bb).bind fun x => ?_
  cases x with
  | none => exact follows_pure []
  | some v => exact follows_instructionsFrom limit v

/-! ### Changes -/

/-- Both blocks are converted first, the moved one before the other. -/
theorem follows_moveBefore (bb position : BasicBlock) :
    Follows (moveBefore bb position) (moveBefore (under tolerate bb) (under tolerate position)) :=
  (follows_blockRef bb).bind fun b => (follows_blockRef position).bind fun p =>
    follows_ask bb.value (.moveBlockBefore b p)

theorem follows_moveAfter (bb position : BasicBlock) :
    Follows (moveAfter bb position) (moveAfter (under tolerate bb) (under tolerate position)) :=
  (follows_blockRef bb).bind fun b => (follows_blockRef position).bind fun p =>
    follows_ask bb.value (.moveBlockAfter b p)

/-- The library makes the block, if it makes one, before the gate wraps it. -/
theorem follows_insertBefore (bb : BasicBlock) (name : String) :
    Follows (insertBefore bb name) (insertBefore (under tolerate bb) name) :=
  (follows_blockRef bb).bind fun b =>
    (follows_ask bb.value (.insertBlockBefore bb.value.context.raw b name)).bind fun b' =>
      follows_internBlock bb.value.context b'

/-- Each instruction is asked for the next one before it is forgotten. -/
theorem follows_forgetInstructions (bb : BasicBlock) (limit : Nat) (h : ValueRef) :
    Follows (forgetInstructions bb limit h) (forgetInstructions (under tolerate bb) limit h) := by
  induction limit generalizing h with
  | zero =>
    unfold forgetInstructions
    split
    · exact follows_pure ()
    · exact follows_fail _
  | succ limit ih =>
    unfold forgetInstructions
    split
    · exact follows_pure ()
    · exact (follows_ask bb.value (.nextInstruction h)).bind fun next =>
        (follows_forgetValue bb.value.context h).bind fun _ => ih next

/-- The wrappers of the block and its instructions are forgotten before the library deletes them. -/
theorem follows_delete (bb : BasicBlock) : Follows (delete bb) (delete (under tolerate bb)) :=
  (follows_blockRef bb).bind fun b =>
    (follows_emit (.deletingBlock bb.value.handle b)).bind fun _ =>
      (follows_ask bb.value (.firstInstruction b)).bind fun first =>
        (follows_walkLimit bb.value.context.library).bind fun limit =>
          (follows_forgetInstructions bb limit first).bind fun _ =>
            (follows_forgetValue bb.value.context bb.value.handle).bind fun _ =>
              follows_ask bb.value (.deleteBlock b)

end Operation

end CanonIR
