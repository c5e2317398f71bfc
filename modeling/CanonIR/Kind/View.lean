import CanonIR.Kind.Value

/-!
Views: the groups of value kinds that share operations. Some are categories of the hierarchy; the
comparisons span two branches of it, instructions and constant expressions.
-/

namespace CanonIR

inductive View where
  | instruction
  | terminator
  | load
  | store
  | atomicRmw
  | atomicCmpXchg
  /-- Comparison of integers, as an instruction or a constant expression. -/
  | iCmp
  /-- Comparison of floating-point numbers, as an instruction or a constant expression. -/
  | fCmp
  | basicBlock
  deriving DecidableEq

namespace View

def all : List View :=
  [instruction, terminator, load, store, atomicRmw, atomicCmpXchg, iCmp, fCmp, basicBlock]

def name : View → String
  | instruction => "Instruction"
  | terminator => "Terminator"
  | load => "LoadInst"
  | store => "StoreInst"
  | atomicRmw => "AtomicRmwInst"
  | atomicCmpXchg => "AtomicCmpXchgInst"
  | iCmp => "ICmp"
  | fCmp => "FCmp"
  | basicBlock => "BasicBlock"

def ofName? (s : String) : Option View :=
  all.find? (·.name == s)

/-- Whether a value of the kind may be viewed so. -/
def accepts : View → ValueKind → Bool
  | instruction, k => k.isA (.ofClass .instruction)
  | terminator, k => k.isA (.ofClass .terminatorInst)
  | load, k => k == .ofClass .loadInst
  | store, k => k == .ofClass .storeInst
  | atomicRmw, k => k == .ofClass .atomicRmwInst
  | atomicCmpXchg, k => k == .ofClass .atomicCmpXchgInst
  | iCmp, k => k == .ofClass .iCmpInst || k == .constExpr .iCmp
  | fCmp, k => k == .ofClass .fCmpInst || k == .constExpr .fCmp
  | basicBlock, k => k == .ofClass .basicBlock

/-- The views of values with a volatile flag. -/
def memoryAccess : List View := [load, store, atomicRmw, atomicCmpXchg]

end View

namespace ValueKind

/-- The views that accept the kind. -/
def views (k : ValueKind) : List View :=
  View.all.filter (·.accepts k)

/-- Whether values of the kind read or write memory and may be volatile. -/
def isMemoryAccess (k : ValueKind) : Bool :=
  View.memoryAccess.any (·.accepts k)

end ValueKind

end CanonIR
