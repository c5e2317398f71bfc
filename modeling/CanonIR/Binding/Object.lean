import CanonIR.Native.System
import CanonIR.Options
import CanonIR.Kind.View
import CanonIR.Kind.Type

/-!
The objects that a binding hands out: contexts, and wrappers of native types and values. Each has an
identity, a number that no other object ever has; two objects with the same handle may still be two.
What is written here of an object never changes.
-/

namespace CanonIR

/-- A native context under a binding. -/
structure Context where
  id : Nat
  library : LibraryId
  raw : ContextRef
  /-- Whether the binding made the native context, and disposes it in the end. -/
  owned : Bool
  options : ContextOptions
  deriving DecidableEq

/-- The wrapper of a native type; it keeps its context alive. -/
structure TypeWrapper where
  id : Nat
  context : Context
  handle : TypeRef
  kind : TypeKind
  deriving DecidableEq

/-- The wrapper of a native value; it keeps its context alive. -/
structure ValueWrapper where
  id : Nat
  context : Context
  handle : ValueRef
  kind : ValueKind
  deriving DecidableEq

/-- A wrapper of a value whose kind a view accepts. -/
structure Viewed (V : View) where
  value : ValueWrapper
  accepted : V.accepts value.kind = true
  deriving DecidableEq

abbrev BasicBlock := Viewed .basicBlock
abbrev Instruction := Viewed .instruction
abbrev Terminator := Viewed .terminator

/-- A strong reference: it keeps an object alive, and the object's context with it. -/
inductive Reference where
  | context (cx : Context)
  | type (t : TypeWrapper)
  | value (v : ValueWrapper)
  deriving DecidableEq

namespace Context

/-- What tells native contexts apart: the library and the handle. -/
def key (cx : Context) : LibraryId × ContextRef := (cx.library, cx.raw)

def text (cx : Context) : String :=
  "Context \x7b raw: " ++ cx.raw.text ++ ", owned: " ++ (if cx.owned then "true" else "false") ++
    ", options: " ++ cx.options.text ++ ", .. \x7d"

end Context

namespace TypeWrapper

def category (t : TypeWrapper) : TypeCategory := t.kind.category

def text (t : TypeWrapper) : String :=
  t.kind.className ++ "(" ++ Text.hex t.handle.address ++ ")"

end TypeWrapper

namespace ValueWrapper

def isA (v : ValueWrapper) (k : ValueKind) : Bool := v.kind.isA k

/-- The wrapper under a view, if its kind fits. -/
def downcast? (V : View) (v : ValueWrapper) : Option (Viewed V) :=
  if h : V.accepts v.kind = true then some ⟨v, h⟩ else none

def text (v : ValueWrapper) : String :=
  v.kind.display ++ "(" ++ Text.hex v.handle.address ++ ")"

end ValueWrapper

/-- A wrapper under a view; one that does not fit is dropped. -/
def Viewed.ofWrapper {m : Type → Type} [Monad m] (drop : ValueWrapper → m Unit) (V : View) :
    Option ValueWrapper → m (Option (Viewed V))
  | none => return none
  | some v =>
    match v.downcast? V with
    | some x => return some x
    | none => do
      drop v
      return none

namespace Reference

/-- The identity of the object. -/
def id : Reference → Nat
  | context cx => cx.id
  | type t => t.id
  | value v => v.id

/-- The context that the reference keeps alive. -/
def owner : Reference → Context
  | context cx => cx
  | type t => t.context
  | value v => v.context

def text : Reference → String
  | context cx => cx.text
  | type t => t.text
  | value v => v.text

end Reference

end CanonIR
