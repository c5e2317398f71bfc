import CanonIR.Kind.ConstExpr
import CanonIR.Kind.Forest

/-!
Value kinds and their hierarchy. `taxonomy` is the only place where the hierarchy is written down:
classification asks its probes in its order, and parents, ancestors and `ValueKind.isA` are read
from it.
-/

namespace CanonIR

/-- The kind of a value: the root of the hierarchy, a class with a probe, or a kind of constant
expression. A value that belongs to a class and to none below it has the kind of that class. -/
inductive ValueKind where
  | value
  | ofClass (p : Probe)
  | constExpr (k : ConstExprKind)
  deriving DecidableEq

/-! ## The hierarchy -/

namespace Taxonomy

def constants : Forest :=
  .leaves [.blockAddress, .constantAggregateZero, .constantArray] <|
  .tree .constantDataSequential (.leaves [.constantDataArray, .constantDataVector]) <|
  .leaves [.constantExpr, .constantFp, .constantInt, .constantPointerNull, .constantStruct,
    .constantTokenNone, .constantVector] <|
  .tree .globalValue
    (.leaves [.globalAlias] <|
     .tree .globalObject (.leaves [.function, .globalVariable, .globalIFunc]) .empty) <|
  .leaves [.poisonValue, .undefValue]

def intrinsics : Forest :=
  .tree .intrinsicInst
    (.tree .dbgInfoIntrinsic
      (.tree .dbgVariableIntrinsic (.leaves [.dbgDeclareInst]) <|
       .leaves [.dbgLabelInst]) <|
     .tree .memIntrinsic (.leaves [.memCpyInst, .memMoveInst, .memSetInst]) .empty)
    .empty

def terminators : Forest :=
  .leaves [.branchInst, .indirectBrInst, .invokeInst, .returnInst, .switchInst, .unreachableInst,
    .resumeInst, .cleanupReturnInst, .catchReturnInst, .catchSwitchInst, .callBrInst]

def casts : Forest :=
  .leaves [.addrSpaceCastInst, .bitCastInst, .fpExtInst, .fpToSiInst, .fpToUiInst, .fpTruncInst,
    .intToPtrInst, .ptrToIntInst, .sExtInst, .siToFpInst, .truncInst, .uiToFpInst, .zExtInst]

def instructions : Forest :=
  .leaves [.unaryOperator, .binaryOperator] <|
  .tree .callInst intrinsics <|
  .tree .cmpInst (.leaves [.fCmpInst, .iCmpInst]) <|
  .leaves [.extractElementInst, .getElementPtrInst, .insertElementInst, .insertValueInst,
    .landingPadInst, .phiNode, .selectInst, .shuffleVectorInst, .storeInst] <|
  .tree .terminatorInst terminators <|
  .tree .funcletPadInst (.leaves [.catchPadInst, .cleanupPadInst]) <|
  .tree .unaryInstruction
    (.leaves [.allocaInst] <|
     .tree .castInst casts <|
     .leaves [.extractValueInst, .loadInst, .vaArgInst, .freezeInst]) <|
  .leaves [.atomicCmpXchgInst, .atomicRmwInst, .fenceInst]

end Taxonomy

/-- The hierarchy below the root. Trees are tried in order, so a class stands before another class
that its values belong to as well: poison before undefined values. -/
def taxonomy : Forest :=
  .leaves [.argument, .basicBlock, .inlineAsm, .mdNode, .mdString] <|
  .tree .user
    (.tree .constant Taxonomy.constants <|
     .tree .instruction Taxonomy.instructions .empty)
    .empty

namespace ValueKind

/-! ## Names -/

/-- Every kind: the root, the classes in the order of their probes, the constant expressions. -/
def all : List ValueKind :=
  value :: Probe.all.map ofClass ++ ConstExprKind.all.map constExpr

def name : ValueKind → String
  | value => "Value"
  | ofClass p => p.name
  | constExpr k => "ConstExpr(" ++ k.name ++ ")"

/-- The name of the class; the constant expressions share theirs. -/
def className : ValueKind → String
  | value => "Value"
  | ofClass p => p.className
  | constExpr _ => "ConstantExpr"

/-- The name of the class, with the opcode of a constant expression. -/
def display : ValueKind → String
  | constExpr k => k.className
  | k => k.className

def ofName? (s : String) : Option ValueKind :=
  all.find? (·.name == s)

/-- The probe that selects the kind. -/
def probe? : ValueKind → Option Probe
  | ofClass p => some p
  | _ => none

def constExpr? : ValueKind → Option ConstExprKind
  | constExpr k => some k
  | _ => none

/-! ## Ancestry -/

/-- The kind directly above; nothing above the root. -/
def parent? : ValueKind → Option ValueKind
  | value => none
  | constExpr _ => some (ofClass .constantExpr)
  | ofClass p => taxonomy.parentIn? ofClass p value

/-- The parent, its parent and so on, at most `limit` of them. -/
def ancestorsUpTo : (limit : Nat) → ValueKind → List ValueKind
  | 0, _ => []
  | n + 1, k =>
    match k.parent? with
    | none => []
    | some p => p :: ancestorsUpTo n p

/-- All kinds above, nearest first, the root last: no kind lies deeper than the hierarchy is high.
-/
def ancestors (k : ValueKind) : List ValueKind :=
  k.ancestorsUpTo (taxonomy.height + 1)

/-- Whether the kind is the other kind or lies below it. -/
def isA (k category : ValueKind) : Bool :=
  k == category || k.ancestors.contains category

/-- Whether other kinds lie below. -/
def isAbstract : ValueKind → Bool
  | value => true
  | constExpr _ => false
  | ofClass .constantExpr => true
  | ofClass p => (taxonomy.find? p).any (·.children != .empty)

theorem mem_all (k : ValueKind) : k ∈ all := by
  cases k with
  | value => exact List.mem_cons_self
  | ofClass p =>
    exact List.mem_cons_of_mem _ (List.mem_append_left _ (List.mem_map_of_mem p.mem_all))
  | constExpr k =>
    exact List.mem_cons_of_mem _ (List.mem_append_right _ (List.mem_map_of_mem k.mem_all))

@[simp] theorem isA_self (k : ValueKind) : k.isA k := by
  simp [isA]

end ValueKind

end CanonIR
