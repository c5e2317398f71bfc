import CanonIR.Binding.Contexts
import CanonIR.Binding.Gate

/-!
Operations of the bindings. An operation is a program over primitives, which are taken as one step
each: a call to a library, a gate, taking or giving up a reference. Between two primitives of an
operation other operations may take steps of theirs. An operation that returns wrappers returns
strong references to them; `releasing` and `orRelease` give up a reference that an operation has
taken for itself, in all cases or in case of a failure.

Some primitives have parts that the bindings do not hold one lock for, and here nothing comes between
these parts all the same. A new context is made by a call to the library and registered afterwards.
The gate of blocks is a call, a gate of values and the note of the block shape. A gate of types or
values that classifies holds the lock of its cache, which shuts out the gates of that cache, but
leaves the library to others between two questions. When the last reference to a context is given
up, its binding leaves the registry before the native context is disposed of; `Bindings` is about
ends of contexts that come later than the last release.
-/

namespace CanonIR

/-- A step that is taken as a whole, though not all of them run under one lock. -/
inductive Primitive where
  | call (lib : LibraryId) (c : Call)
  | emit (e : Event)
  | walkLimit (lib : LibraryId)
  | createContext (lib : LibraryId) (options : ContextOptions)
  | attachContext (lib : LibraryId) (raw : ContextRef) (options : ContextOptions)
  | internType (cx : Context) (h : TypeRef)
  | internValue (cx : Context) (h : ValueRef)
  | internBlock (cx : Context) (b : BlockRef)
  | blockRef (bb : BasicBlock)
  | forgetValue (cx : Context) (h : ValueRef)
  | hold (r : Reference)
  | release (r : Reference)

namespace Primitive

/-- The type of what a primitive returns. -/
abbrev Result : Primitive → Type
  | call _ c => c.Answer
  | emit _ => Unit
  | walkLimit _ => Nat
  | createContext _ _ => Context
  | attachContext _ _ _ => Context
  | internType _ _ => Option TypeWrapper
  | internValue _ _ => Option ValueWrapper
  | internBlock _ _ => Option BasicBlock
  | blockRef _ => BlockRef
  | forgetValue _ _ => Unit
  | hold _ => Unit
  | release _ => Unit

/-- What a primitive does. -/
def action {σ : Type} [NativeSystem σ] : (a : Primitive) → Action σ a.Result
  | call lib c => Action.call lib c
  | emit e => Action.emit e
  | walkLimit lib => Action.walkLimit lib
  | createContext lib options => Action.createContext lib options
  | attachContext lib raw options => Action.attachContext lib raw options
  | internType cx h => Action.internType cx h
  | internValue cx h => Action.internValue cx h
  | internBlock cx b => Action.internBlock cx b
  | blockRef bb => Action.blockRef bb
  | forgetValue cx h => Action.forgetValue cx h
  | hold r => Action.hold r
  | release r => Action.release r

end Primitive

/-- Programs over primitives. What comes after a primitive depends on its outcome. -/
inductive Operation (α : Type) where
  | done (x : Except Fault α)
  | step (a : Primitive) (next : Except Fault a.Result → Operation α)

namespace Operation

variable {α β : Type}

/-- Goes on with what an operation returns; a fault ends both. -/
def bind : Operation α → (α → Operation β) → Operation β
  | done (.ok x), f => f x
  | done (.error e), _ => done (.error e)
  | step a next, f => step a fun x => (next x).bind f

instance : Monad Operation where
  pure x := done (.ok x)
  bind := bind

def fail (e : Fault) : Operation α := done (.error e)

/-- The operation of one primitive. -/
def perform (a : Primitive) : Operation a.Result := step a done

/-- Puts a last step behind an operation, whatever its outcome. -/
def followedBy (a : Primitive) : Operation α → Operation α
  | done x => step a fun _ => done x
  | step b next => step b fun x => (next x).followedBy a

/-- Puts a last step behind an operation that fails. -/
def onFault (a : Primitive) : Operation α → Operation α
  | done (.ok x) => done (.ok x)
  | done (.error e) => step a fun _ => done (.error e)
  | step b next => step b fun x => (next x).onFault a

/-! ## Primitives as operations -/

/-- Makes a call to a native library. -/
def call (lib : LibraryId) (c : Call) : Operation c.Answer := perform (.call lib c)

def emit (e : Event) : Operation Unit := perform (.emit e)

/-- The bound of a walk along native links. -/
def walkLimit (lib : LibraryId) : Operation Nat := perform (.walkLimit lib)

def createContext (lib : LibraryId) (options : ContextOptions) : Operation Context :=
  perform (.createContext lib options)

def attachContext (lib : LibraryId) (raw : ContextRef) (options : ContextOptions) :
    Operation Context :=
  perform (.attachContext lib raw options)

def internType (cx : Context) (h : TypeRef) : Operation (Option TypeWrapper) :=
  perform (.internType cx h)

def internValue (cx : Context) (h : ValueRef) : Operation (Option ValueWrapper) :=
  perform (.internValue cx h)

def internBlock (cx : Context) (b : BlockRef) : Operation (Option BasicBlock) :=
  perform (.internBlock cx b)

def blockRef (bb : BasicBlock) : Operation BlockRef := perform (.blockRef bb)

def forgetValue (cx : Context) (h : ValueRef) : Operation Unit := perform (.forgetValue cx h)

def hold (r : Reference) : Operation Unit := perform (.hold r)

def release (r : Reference) : Operation Unit := perform (.release r)

/-! ## References taken on the way -/

/-- Releases a reference after an operation, whether it succeeds or fails. -/
def releasing (r : Reference) : Operation α → Operation α := followedBy (.release r)

/-- Releases a reference after an operation that fails. -/
def orRelease (r : Reference) : Operation α → Operation α := onFault (.release r)

/-- A wrapper under a view; a wrapper that does not fit is released. -/
def downcast (V : View) (v : Option ValueWrapper) : Operation (Option (Viewed V)) :=
  Viewed.ofWrapper (fun v => release (.value v)) V v

/-! ## Running -/

/-- The operation as one action, with nothing between its steps. -/
def action {σ : Type} [NativeSystem σ] : Operation α → Action σ α
  | done x => fun w => (x, w)
  | step a next => fun w =>
    let (x, w) := a.action.apply w
    (next x).action.apply w

end Operation

end CanonIR
