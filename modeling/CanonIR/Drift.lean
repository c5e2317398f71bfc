import CanonIR.Handle
import CanonIR.Kind.Opcode

/-!
Classification failures: the ways in which a native library can disagree with the taxonomy.
-/

namespace CanonIR

inductive Drift where
  /-- A type whose kind number no type kind has. -/
  | unknownTypeKind (handle : TypeRef) (number : Nat)
  /-- A constant expression whose opcode number no opcode has. -/
  | unknownOpcode (handle : ValueRef) (number : Nat)
  /-- A constant expression whose opcode can head none. -/
  | impossibleConstExpr (handle : ValueRef) (opcode : Opcode)
  /-- A value that belongs to no class at the top of the hierarchy. -/
  | unclassifiedValue (handle : ValueRef)
  deriving DecidableEq

namespace Drift

/-- The name of the kind of failure. -/
def name : Drift → String
  | unknownTypeKind .. => "UnknownTypeKind"
  | unknownOpcode .. => "UnknownOpcode"
  | impossibleConstExpr .. => "ImpossibleConstExpr"
  | unclassifiedValue .. => "UnclassifiedValue"

/-- The sentence that reports the failure. -/
def message : Drift → String
  | unknownTypeKind h n =>
    "taxonomy drift: type " ++ h.text ++ " has kind " ++ toString n ++
      ", which the type table does not know"
  | unknownOpcode h n =>
    "taxonomy drift: constant expression " ++ h.text ++ " has opcode " ++ toString n ++
      ", which the opcode table does not know"
  | impossibleConstExpr h o =>
    "taxonomy drift: constant expression " ++ h.text ++ " has opcode " ++ o.name ++
      ", which cannot form a constant expression"
  | unclassifiedValue h =>
    "taxonomy drift: value " ++ h.text ++ " matches no top-level class " ++
      "(set IRBIND_TOLERATE_UNKNOWN=1 to accept it as a bare Value)"

/-- The name with the labelled details. -/
def text (e : Drift) : String :=
  e.name ++ " \x7b " ++ details e ++ " \x7d"
where
  details : Drift → String
    | unknownTypeKind h n => "handle: " ++ h.text ++ ", raw: " ++ toString n
    | unknownOpcode h n => "handle: " ++ h.text ++ ", raw: " ++ toString n
    | impossibleConstExpr h o => "handle: " ++ h.text ++ ", opcode: " ++ o.name
    | unclassifiedValue h => "handle: " ++ h.text

end Drift

end CanonIR
