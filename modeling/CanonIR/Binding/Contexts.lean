import CanonIR.Binding.Action

/-!
Making contexts: either a new native context, which the binding owns, or one that somebody else
owns. A native context that has a living binding is not bound a second time.
-/

namespace CanonIR.Action

variable {σ : Type}

/-- A new binding of a native context, entered into the registry. -/
def bindContext (lib : LibraryId) (raw : ContextRef) (owned : Bool) (options : ContextOptions) :
    Action σ Context := do
  let cx : Context := ⟨← freshId, lib, raw, owned, options⟩
  hold (.context cx)
  update fun w => { w.setCaches cx {} with registry := w.registry.enter cx }
  return cx

/-- A new native context under a new binding. -/
def createContext [NativeSystem σ] (lib : LibraryId) (options : ContextOptions) :
    Action σ Context := do
  let raw ← call lib .createContext
  emit (.createdContext raw options.unknownValues)
  bindContext lib raw true options

/-- The binding of a native context that is owned elsewhere: the living one, with its own options
and ownership, or else a new one. -/
def attachContext (lib : LibraryId) (raw : ContextRef) (options : ContextOptions) :
    Action σ Context := do
  let w ← get
  match w.registry.living? w.contextAlive (lib, raw) with
  | some cx =>
    emit (.reusedBinding raw)
    hold (.context cx)
    return cx
  | none =>
    emit (.attachedContext raw options.unknownValues)
    bindContext lib raw false options

end CanonIR.Action
