import CanonIR.Binding.Classify
import CanonIR.Native.Recorder

/-!
Classification on its own: one object in a fresh library, classified without a context. The report
says what was found and which questions were asked.
-/

namespace CanonIR

/-- What came of classifying one object. -/
structure Classification (α : Type) where
  result : Except Fault α
  /-- The probes asked, in order. -/
  probes : List Probe
  typeKindCount : Nat
  events : List Event

namespace Classification

variable {k : HandleKind} {α : Type}

/-- Makes an object in a fresh library and classifies it. -/
def of (make : Memory.Graph → Handle k × Memory.Graph)
    (classify : LibraryId → Handle k → Action Recorders α) : Classification α :=
  let lib : LibraryId := ⟨0⟩
  let (h, graph) := make {}
  let native : Recorders := Table.insert ∅ lib { graph }
  let (result, w) := (classify lib h).apply { native }
  let r := Recorders.recorder w.native lib
  { result, probes := r.probes, typeKindCount := r.typeKindCount, events := w.events.toList }

/-- Classifies a type with a kind number. -/
def ofType (number : Nat) : Classification TypeKind :=
  of (·.newType ⟨number, 0⟩) Action.classifyType

/-- Classifies a constant expression with an opcode number. -/
def ofConstExpr (number : Nat) : Classification ConstExprKind :=
  of (·.constExpr number) Action.classifyConstExpr

/-- Classifies a value with the probes that hold of it and an opcode number. -/
def ofValue (probes : List Probe) (opcode : Nat) (policy : UnknownValues) :
    Classification ValueKind :=
  of (·.newValue { probes, opcode }) fun lib v => Action.classifyValue lib v policy

end Classification

end CanonIR
