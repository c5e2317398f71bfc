import CanonIR.Binding.Action

/-!
Classification: finding the kind of a native type or value by asking its library. A type reports its
kind in one number. A value is led down the hierarchy of classes: at each level the first class that
it belongs to decides where to go on, and a value that belongs to none of the classes at a level has
the kind above.
-/

namespace CanonIR

/-- Leads a value down a forest, whose classes lie below the class `above`. The probes of a level
are asked in order up to the first that holds; the result is the last class whose probe held. -/
def Forest.settle {m : Type → Type} [Monad m] (ask : Probe → m Bool) (above : Option Probe) :
    Forest → m (Option Probe)
  | .empty => pure above
  | .tree p children rest => do
    if ← ask p then children.settle ask (some p) else rest.settle ask above

namespace Action

variable {σ : Type} [NativeSystem σ]

/-- The kind of a type that is not null, in one question. -/
def classifyType (lib : LibraryId) (ty : TypeRef) : Action σ TypeKind := do
  let n ← call lib (.typeKind ty)
  match TypeKind.ofNumber? n with
  | some k => pure k
  | none => throw (.drift (.unknownTypeKind ty n))

/-- The kind of a constant expression, which its opcode selects. -/
def classifyConstExpr (lib : LibraryId) (v : ValueRef) : Action σ ConstExprKind := do
  let n ← call lib (.constOpcode v)
  match Opcode.ofNumber? n with
  | none => throw (.drift (.unknownOpcode v n))
  | some o =>
    match o.constExpr? with
    | some k => pure k
    | none => throw (.drift (.impossibleConstExpr v o))

/-- The kind of a value that belongs to no class of the hierarchy. -/
def classifyUnknown (v : ValueRef) : UnknownValues → Action σ ValueKind
  | .reject => throw (.drift (.unclassifiedValue v))
  | .tolerate => do
    emit (.unknownValue v)
    pure .value

/-- The kind of a value that is not null. -/
def classifyValue (lib : LibraryId) (v : ValueRef) (policy : UnknownValues) :
    Action σ ValueKind := do
  match ← taxonomy.settle (fun p => call lib (.isA v p)) none with
  | none => classifyUnknown v policy
  | some p =>
    emit (.chainSettled v p)
    if p = .constantExpr then .constExpr <$> classifyConstExpr lib v else pure (.ofClass p)

end Action

end CanonIR
