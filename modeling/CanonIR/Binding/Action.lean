import CanonIR.Binding.World
import CanonIR.Drift

/-!
Actions on the state of the bindings. An action that fails leaves the state that it has reached. An
action that returns a wrapper or a context returns a strong reference to it, which the caller has to
release.
-/

namespace CanonIR

/-- The ways in which an action fails. -/
inductive Fault where
  /-- The library and the taxonomy disagree. -/
  | drift (e : Drift)
  /-- The library gave up in the middle of a call. -/
  | trap (message : String)
  /-- The links of the library go round in a circle. -/
  | endlessWalk
  deriving DecidableEq

namespace Fault

def message : Fault → String
  | drift e => e.message
  | trap message => message
  | endlessWalk => "a walk along native links does not end"

end Fault

/-- Computations that change the state of the bindings and may fail. -/
abbrev Action (σ α : Type) := ExceptT Fault (StateM (World σ)) α

namespace Action

variable {σ α : Type}

/-- The outcome of an action, and the state after it. -/
def apply (a : Action σ α) (w : World σ) : Except Fault α × World σ := a w

/-- Changes the state. -/
def update (f : World σ → World σ) : Action σ Unit := modify f

def emit (e : Event) : Action σ Unit := update (World.emit e)

def hold (r : Reference) : Action σ Unit := update (World.hold r)

/-- An identity that no other object has. -/
def freshId : Action σ Nat := modifyGet fun w => (w.nextId, { w with nextId := w.nextId + 1 })

variable [NativeSystem σ]

/-- Makes a call to a native library. -/
def call (lib : LibraryId) (c : Call) : Action σ c.Answer := fun w =>
  let (a, native) := NativeSystem.perform lib c w.native
  (a.mapError fun t => .trap t.message, { w with native })

/-- The bound of a walk along native links. -/
def walkLimit (lib : LibraryId) : Action σ Nat := do
  return NativeSystem.walkLimit lib (← get).native

def release (r : Reference) : Action σ Unit := update (World.release r)

/-! ## What an action does, step by step -/

omit [NativeSystem σ]

variable {β : Type} (w : World σ)

@[simp] theorem apply_pure (x : α) : (pure x : Action σ α).apply w = (.ok x, w) := rfl

@[simp] theorem apply_throw (e : Fault) : (throw e : Action σ α).apply w = (.error e, w) := rfl

theorem apply_bind (a : Action σ α) (f : α → Action σ β) :
    (a >>= f).apply w =
      match a.apply w with
      | (.ok x, w) => (f x).apply w
      | (.error e, w) => (.error e, w) := by
  simp only [apply, bind, ExceptT.bind, ExceptT.mk, StateT.bind, ExceptT.bindCont]
  rcases a w with ⟨_ | _, _⟩ <;> rfl

theorem apply_map (f : α → β) (a : Action σ α) :
    (f <$> a).apply w =
      match a.apply w with
      | (.ok x, w) => (.ok (f x), w)
      | (.error e, w) => (.error e, w) := by
  rw [← bind_pure_comp, apply_bind]
  rcases a.apply w with ⟨_ | _, _⟩ <;> rfl

@[simp] theorem apply_get : (get : Action σ (World σ)).apply w = (.ok w, w) := rfl

@[simp] theorem apply_update (f : World σ → World σ) : (update f).apply w = (.ok (), f w) := rfl

@[simp] theorem apply_emit (e : Event) : (emit e).apply w = (.ok (), w.emit e) := rfl

@[simp] theorem apply_hold (r : Reference) : (hold r).apply w = (.ok (), w.hold r) := rfl

@[simp] theorem apply_freshId :
    (freshId : Action σ Nat).apply w = (.ok w.nextId, { w with nextId := w.nextId + 1 }) := rfl

variable [NativeSystem σ]

theorem apply_call (lib : LibraryId) (c : Call) :
    (call lib c).apply w =
      ((NativeSystem.perform lib c w.native).1.mapError fun t => .trap t.message,
        { w with native := (NativeSystem.perform lib c w.native).2 }) := rfl

theorem apply_call_of_perform {lib : LibraryId} {c : Call} {a : c.Answer} {w : World σ} {s : σ}
    (h : NativeSystem.perform lib c w.native = (.ok a, s)) :
    (call lib c).apply w = (.ok a, { w with native := s }) := by
  rw [apply_call, h]
  rfl

@[simp] theorem apply_walkLimit (lib : LibraryId) :
    (walkLimit lib).apply w = (.ok (NativeSystem.walkLimit lib w.native), w) := rfl

@[simp] theorem apply_release (r : Reference) : (release r).apply w = (.ok (), w.release r) := rfl

end Action

end CanonIR
