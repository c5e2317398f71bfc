import CanonIR.Native.Call

/-!
Native systems: what a binding may assume of the libraries behind it, which is only that they answer
calls. A system is a state that each call may read and change.
-/

namespace CanonIR

/-- One of the libraries of a system. -/
structure LibraryId where
  index : Nat
  deriving DecidableEq

/-- A library gave up in the middle of a call. -/
structure NativeTrap where
  message : String
  deriving DecidableEq

/-- Libraries with a common state `σ`. -/
class NativeSystem (σ : Type) where
  /-- Makes a call to one of the libraries. A call that traps may still have changed the state. -/
  perform : LibraryId → (c : Call) → σ → Except NativeTrap c.Answer × σ
  /-- The number of steps after which a walk along the links of a library cannot but repeat itself.
  -/
  walkLimit : LibraryId → σ → Nat

end CanonIR
