import CanonIR.Binding.Classify

/-!
The gates, the only ways to a wrapper: while a wrapper of a handle lives, every gate of its context
returns that wrapper; else the object is classified and a new wrapper is put into the cache. The
null handle has no wrapper. A wrapper of a block keeps the block shape once it is known.
-/

namespace CanonIR.Action

variable {σ : Type} [NativeSystem σ]

/-- A new wrapper of a type, which takes its place in the cache. -/
def wrapType (cx : Context) (h : TypeRef) (kind : TypeKind) : Action σ TypeWrapper := do
  let t : TypeWrapper := ⟨← freshId, cx, h, kind⟩
  hold (.type t)
  update (World.enterType t)
  return t

/-- A new wrapper of a value, which takes its place in the cache. -/
def wrapValue (cx : Context) (h : ValueRef) (kind : ValueKind) : Action σ ValueWrapper := do
  let v : ValueWrapper := ⟨← freshId, cx, h, kind⟩
  hold (.value v)
  update (World.enterValue v)
  return v

/-- The wrapper of a type. -/
def internType (cx : Context) (h : TypeRef) : Action σ (Option TypeWrapper) := do
  if h.isNull then return none
  let w ← get
  match (w.cachesOf cx).types.lookup w.typeAlive h.address with
  | some t =>
    hold (.type t)
    return some t
  | none =>
    let kind ← classifyType cx.library h
    emit (.internedType h kind)
    return some (← wrapType cx h kind)

/-- The wrapper of a value. -/
def internValue (cx : Context) (h : ValueRef) : Action σ (Option ValueWrapper) := do
  if h.isNull then return none
  let w ← get
  match (w.cachesOf cx).values.lookup w.valueAlive h.address with
  | some v =>
    hold (.value v)
    return some v
  | none =>
    let kind ← classifyValue cx.library h cx.options.unknownValues
    emit (.internedValue h kind)
    return some (← wrapValue cx h kind)

/-- A wrapper under a view; a wrapper that does not fit is released. -/
def downcast (V : View) (v : Option ValueWrapper) : Action σ (Option (Viewed V)) :=
  Viewed.ofWrapper (fun v => release (.value v)) V v

/-- The wrapper of a block, which is the wrapper of its value shape. -/
def internBlock (cx : Context) (b : BlockRef) : Action σ (Option BasicBlock) := do
  if b.isNull then return none
  let h ← call cx.library (.blockAsValue b)
  match ← downcast .basicBlock (← internValue cx h) with
  | none => return none
  | some bb =>
    update (World.noteBlockRef bb b)
    return some bb

/-- The block shape of a block, converted at most once. -/
def blockRef (bb : BasicBlock) : Action σ BlockRef := do
  match (← get).blockRefs.get? bb.value.id with
  | some b => return b
  | none =>
    let b ← call bb.value.context.library (.valueAsBlock bb.value.handle)
    emit (.convertedBlock bb.value.handle b)
    update (World.noteBlockRef bb b)
    return b

/-- Drops the cache entry of a value whose native object is destroyed. -/
def forgetValue (cx : Context) (h : ValueRef) : Action σ Unit := do
  let known := (← get).hasValue cx h
  update (World.forgetValue cx h)
  if known then emit (.forgotValue h)

end CanonIR.Action
