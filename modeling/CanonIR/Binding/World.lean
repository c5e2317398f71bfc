import CanonIR.Binding.Registry
import CanonIR.Cache.Weak
import CanonIR.Log.Event

/-!
The state of all bindings, over native libraries with the state `σ`. Lifetimes are explicit: `held`
lists the strong references that the users of the bindings hold, an object lives as long as one of
them is to it, and a context as long as one of them is to it or to a wrapper of its. When the last
of these is released the context is retired, and its native context disposed if the binding owns it.
-/

namespace CanonIR

/-- The wrappers known in a context, by the addresses of their handles. -/
structure Caches where
  types : WeakCache TypeWrapper := {}
  values : WeakCache ValueWrapper := {}

instance : Inhabited Caches := ⟨{}⟩

structure World (σ : Type) where
  native : σ
  /-- The identity that the next object gets. -/
  nextId : Nat := 0
  /-- The strong references held from outside, in no particular order. -/
  held : List Reference := []
  /-- The caches of the contexts that live, by identity. -/
  caches : Table Nat Caches := ∅
  registry : Registry := ∅
  /-- The block shapes that are known of wrappers, by identity. -/
  blockRefs : Table Nat BlockRef := ∅
  events : Array Event := #[]

namespace World

variable {σ : Type}

/-! ## What lives -/

/-- Whether a strong reference to the object with an identity is held. -/
def holds (w : World σ) (id : Nat) : Bool := w.held.any (·.id == id)

def typeAlive (w : World σ) (t : TypeWrapper) : Bool := w.holds t.id

def valueAlive (w : World σ) (v : ValueWrapper) : Bool := w.holds v.id

def contextAlive (w : World σ) (cx : Context) : Bool := w.held.any (·.owner.id == cx.id)

/-! ## Caches -/

def cachesOf (w : World σ) (cx : Context) : Caches := (w.caches.get? cx.id).getD {}

def setCaches (w : World σ) (cx : Context) (c : Caches) : World σ :=
  { w with caches := w.caches.insert cx.id c }

/-- Puts a wrapper of a type into its place in the cache. -/
def enterType (t : TypeWrapper) (w : World σ) : World σ :=
  let c := w.cachesOf t.context
  w.setCaches t.context { c with types := c.types.insert w.typeAlive t.handle.address t }

/-- Puts a wrapper of a value into its place in the cache. -/
def enterValue (v : ValueWrapper) (w : World σ) : World σ :=
  let c := w.cachesOf v.context
  w.setCaches v.context { c with values := c.values.insert w.valueAlive v.handle.address v }

/-- Drops the cache entry of a value. -/
def forgetValue (cx : Context) (h : ValueRef) (w : World σ) : World σ :=
  let c := w.cachesOf cx
  w.setCaches cx { c with values := c.values.forget h.address }

/-- Notes the block shape of a wrapper, unless one is known. -/
def noteBlockRef (bb : BasicBlock) (b : BlockRef) (w : World σ) : World σ :=
  if w.blockRefs.contains bb.value.id then w
  else { w with blockRefs := w.blockRefs.insert bb.value.id b }

/-- The number of living type wrappers. -/
def liveTypes (w : World σ) (cx : Context) : Nat := (w.cachesOf cx).types.liveCount w.typeAlive

/-- The number of living value wrappers. -/
def liveValues (w : World σ) (cx : Context) : Nat := (w.cachesOf cx).values.liveCount w.valueAlive

/-- The number of entries in both caches, the dead ones included. -/
def cacheEntries (w : World σ) (cx : Context) : Nat :=
  (w.cachesOf cx).types.size + (w.cachesOf cx).values.size

/-- Whether a living wrapper of the type is known. -/
def hasType (w : World σ) (cx : Context) (h : TypeRef) : Bool :=
  (w.cachesOf cx).types.contains w.typeAlive h.address

/-- Whether a living wrapper of the value is known. -/
def hasValue (w : World σ) (cx : Context) (h : ValueRef) : Bool :=
  (w.cachesOf cx).values.contains w.valueAlive h.address

/-! ## References -/

def emit (e : Event) (w : World σ) : World σ := { w with events := w.events.push e }

def hold (r : Reference) (w : World σ) : World σ := { w with held := r :: w.held }

variable [NativeSystem σ]

/-- The end of a context: it leaves the registry, unless another binding has taken its place, and an
owned native context is disposed. -/
def retire (cx : Context) (w : World σ) : World σ :=
  let w := { w with registry := w.registry.retire cx, caches := w.caches.erase cx.id }
  if cx.owned then
    let w := w.emit (.disposingContext cx.raw)
    { w with native := (NativeSystem.perform cx.library (.disposeContext cx.raw) w.native).2 }
  else w

/-- Gives up one strong reference to an object; nothing happens if none is held. -/
def release (r : Reference) (w : World σ) : World σ :=
  if w.holds r.id then
    let w := { w with held := w.held.eraseP (·.id == r.id) }
    if w.contextAlive r.owner then w else w.retire r.owner
  else w

end World

end CanonIR
