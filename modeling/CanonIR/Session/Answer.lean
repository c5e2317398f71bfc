import CanonIR.Drift
import CanonIR.Binding.Object
import CanonIR.Log.Event

/-!
The answers to the steps of a session.
-/

namespace CanonIR

/-- An object that a step returned: its text, and the slots that hold this very object. -/
structure Description where
  text : String
  same : List String
  deriving DecidableEq

structure ContextInfo where
  context : Context
  liveTypes : Nat
  liveValues : Nat
  cacheEntries : Nat
  deriving DecidableEq

structure TypeInfo where
  kind : TypeKind
  intWidth : Option Nat
  deriving DecidableEq

namespace TypeInfo

def category (i : TypeInfo) : TypeCategory := i.kind.category

def isReal (i : TypeInfo) : Bool := i.category == .real

def isSequential (i : TypeInfo) : Bool := i.category == .sequential

end TypeInfo

/-- A view of a value: its text, whether it is a view of that very value, whether it equals its
copy, and the number of different views among two copies. -/
structure ViewInfo where
  text : String
  sameValue : Bool
  sameCopy : Bool
  distinct : Nat
  deriving DecidableEq

structure ComparisonInfo where
  view : View
  number : Nat
  /-- The name of the predicate, if the number is one's. -/
  predicate : Option String
  /-- Whether the comparison is a constant expression. -/
  isConstant : Bool
  deriving DecidableEq

/-- What came of gating one value several times at once. -/
structure RaceInfo where
  allSame : Bool
  live : Nat
  text : Option String
  deriving DecidableEq

/-- What a step may want of the content of a slot. -/
inductive SlotClass where
  | context
  | type
  | value
  | basicBlock
  | instruction
  | terminator
  | memoryAccess
  | comparison
  deriving DecidableEq

def SlotClass.name : SlotClass → String
  | context => "Context"
  | type => "Type"
  | value => "Value"
  | basicBlock => "BasicBlock"
  | instruction => "Instruction"
  | terminator => "Terminator"
  | memoryAccess => "MemoryAccess"
  | comparison => "Comparison"

/-- Why a step has no result. -/
inductive Failure where
  /-- A name under which nothing is kept. -/
  | unbound (name : String)
  /-- A slot whose content is of another class. -/
  | notA (wanted : SlotClass)
  | drift (e : Drift)
  /-- The step was aborted. -/
  | aborted (message : String)
  deriving DecidableEq

inductive Answer where
  | none
  | flag (b : Bool)
  | text (s : String)
  | maybeText (s : Option String)
  | texts (l : List String)
  | numbers (l : List Nat)
  | one (d : Option Description)
  | many (l : List Description)
  | contextInfo (i : ContextInfo)
  | typeInfo (i : TypeInfo)
  | view (i : Option ViewInfo)
  | comparison (i : ComparisonInfo)
  | race (i : RaceInfo)
  | events (l : List Event)
  | failure (f : Failure)
  deriving DecidableEq

end CanonIR
