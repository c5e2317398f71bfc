/-!
Probes: the class tests that a native library answers for a value, one for each class of the value
hierarchy.
-/

namespace CanonIR

/-- The test whether a value belongs to a class. -/
inductive Probe where
  | argument
  | basicBlock
  | inlineAsm
  | mdNode
  | mdString
  | user
  | constant
  | blockAddress
  | constantAggregateZero
  | constantArray
  | constantDataSequential
  | constantDataArray
  | constantDataVector
  | constantExpr
  | constantFp
  | constantInt
  | constantPointerNull
  | constantStruct
  | constantTokenNone
  | constantVector
  | globalValue
  | globalAlias
  | globalObject
  | function
  | globalVariable
  | globalIFunc
  | poisonValue
  | undefValue
  | instruction
  | unaryOperator
  | binaryOperator
  | callInst
  | intrinsicInst
  | dbgInfoIntrinsic
  | dbgVariableIntrinsic
  | dbgDeclareInst
  | dbgLabelInst
  | memIntrinsic
  | memCpyInst
  | memMoveInst
  | memSetInst
  | cmpInst
  | fCmpInst
  | iCmpInst
  | extractElementInst
  | getElementPtrInst
  | insertElementInst
  | insertValueInst
  | landingPadInst
  | phiNode
  | selectInst
  | shuffleVectorInst
  | storeInst
  | terminatorInst
  | branchInst
  | indirectBrInst
  | invokeInst
  | returnInst
  | switchInst
  | unreachableInst
  | resumeInst
  | cleanupReturnInst
  | catchReturnInst
  | catchSwitchInst
  | callBrInst
  | funcletPadInst
  | catchPadInst
  | cleanupPadInst
  | unaryInstruction
  | allocaInst
  | castInst
  | addrSpaceCastInst
  | bitCastInst
  | fpExtInst
  | fpToSiInst
  | fpToUiInst
  | fpTruncInst
  | intToPtrInst
  | ptrToIntInst
  | sExtInst
  | siToFpInst
  | truncInst
  | uiToFpInst
  | zExtInst
  | extractValueInst
  | loadInst
  | vaArgInst
  | freezeInst
  | atomicCmpXchgInst
  | atomicRmwInst
  | fenceInst
  deriving DecidableEq

namespace Probe

/-- Every probe, each class before the classes below it. -/
def all : List Probe :=
  [.argument, .basicBlock, .inlineAsm, .mdNode, .mdString, .user, .constant, .blockAddress,
   .constantAggregateZero, .constantArray, .constantDataSequential, .constantDataArray,
   .constantDataVector, .constantExpr, .constantFp, .constantInt, .constantPointerNull,
   .constantStruct, .constantTokenNone, .constantVector, .globalValue, .globalAlias,
   .globalObject, .function, .globalVariable, .globalIFunc, .poisonValue, .undefValue,
   .instruction, .unaryOperator, .binaryOperator, .callInst, .intrinsicInst, .dbgInfoIntrinsic,
   .dbgVariableIntrinsic, .dbgDeclareInst, .dbgLabelInst, .memIntrinsic, .memCpyInst,
   .memMoveInst, .memSetInst, .cmpInst, .fCmpInst, .iCmpInst, .extractElementInst,
   .getElementPtrInst, .insertElementInst, .insertValueInst, .landingPadInst, .phiNode,
   .selectInst, .shuffleVectorInst, .storeInst, .terminatorInst, .branchInst, .indirectBrInst,
   .invokeInst, .returnInst, .switchInst, .unreachableInst, .resumeInst, .cleanupReturnInst,
   .catchReturnInst, .catchSwitchInst, .callBrInst, .funcletPadInst, .catchPadInst,
   .cleanupPadInst, .unaryInstruction, .allocaInst, .castInst, .addrSpaceCastInst, .bitCastInst,
   .fpExtInst, .fpToSiInst, .fpToUiInst, .fpTruncInst, .intToPtrInst, .ptrToIntInst, .sExtInst,
   .siToFpInst, .truncInst, .uiToFpInst, .zExtInst, .extractValueInst, .loadInst, .vaArgInst,
   .freezeInst, .atomicCmpXchgInst, .atomicRmwInst, .fenceInst]

def name : Probe → String
  | argument => "Argument"
  | basicBlock => "BasicBlock"
  | inlineAsm => "InlineAsm"
  | mdNode => "MdNode"
  | mdString => "MdString"
  | user => "User"
  | constant => "Constant"
  | blockAddress => "BlockAddress"
  | constantAggregateZero => "ConstantAggregateZero"
  | constantArray => "ConstantArray"
  | constantDataSequential => "ConstantDataSequential"
  | constantDataArray => "ConstantDataArray"
  | constantDataVector => "ConstantDataVector"
  | constantExpr => "ConstantExpr"
  | constantFp => "ConstantFp"
  | constantInt => "ConstantInt"
  | constantPointerNull => "ConstantPointerNull"
  | constantStruct => "ConstantStruct"
  | constantTokenNone => "ConstantTokenNone"
  | constantVector => "ConstantVector"
  | globalValue => "GlobalValue"
  | globalAlias => "GlobalAlias"
  | globalObject => "GlobalObject"
  | function => "Function"
  | globalVariable => "GlobalVariable"
  | globalIFunc => "GlobalIFunc"
  | poisonValue => "PoisonValue"
  | undefValue => "UndefValue"
  | instruction => "Instruction"
  | unaryOperator => "UnaryOperator"
  | binaryOperator => "BinaryOperator"
  | callInst => "CallInst"
  | intrinsicInst => "IntrinsicInst"
  | dbgInfoIntrinsic => "DbgInfoIntrinsic"
  | dbgVariableIntrinsic => "DbgVariableIntrinsic"
  | dbgDeclareInst => "DbgDeclareInst"
  | dbgLabelInst => "DbgLabelInst"
  | memIntrinsic => "MemIntrinsic"
  | memCpyInst => "MemCpyInst"
  | memMoveInst => "MemMoveInst"
  | memSetInst => "MemSetInst"
  | cmpInst => "CmpInst"
  | fCmpInst => "FCmpInst"
  | iCmpInst => "ICmpInst"
  | extractElementInst => "ExtractElementInst"
  | getElementPtrInst => "GetElementPtrInst"
  | insertElementInst => "InsertElementInst"
  | insertValueInst => "InsertValueInst"
  | landingPadInst => "LandingPadInst"
  | phiNode => "PhiNode"
  | selectInst => "SelectInst"
  | shuffleVectorInst => "ShuffleVectorInst"
  | storeInst => "StoreInst"
  | terminatorInst => "TerminatorInst"
  | branchInst => "BranchInst"
  | indirectBrInst => "IndirectBrInst"
  | invokeInst => "InvokeInst"
  | returnInst => "ReturnInst"
  | switchInst => "SwitchInst"
  | unreachableInst => "UnreachableInst"
  | resumeInst => "ResumeInst"
  | cleanupReturnInst => "CleanupReturnInst"
  | catchReturnInst => "CatchReturnInst"
  | catchSwitchInst => "CatchSwitchInst"
  | callBrInst => "CallBrInst"
  | funcletPadInst => "FuncletPadInst"
  | catchPadInst => "CatchPadInst"
  | cleanupPadInst => "CleanupPadInst"
  | unaryInstruction => "UnaryInstruction"
  | allocaInst => "AllocaInst"
  | castInst => "CastInst"
  | addrSpaceCastInst => "AddrSpaceCastInst"
  | bitCastInst => "BitCastInst"
  | fpExtInst => "FpExtInst"
  | fpToSiInst => "FpToSiInst"
  | fpToUiInst => "FpToUiInst"
  | fpTruncInst => "FpTruncInst"
  | intToPtrInst => "IntToPtrInst"
  | ptrToIntInst => "PtrToIntInst"
  | sExtInst => "SExtInst"
  | siToFpInst => "SiToFpInst"
  | truncInst => "TruncInst"
  | uiToFpInst => "UiToFpInst"
  | zExtInst => "ZExtInst"
  | extractValueInst => "ExtractValueInst"
  | loadInst => "LoadInst"
  | vaArgInst => "VaArgInst"
  | freezeInst => "FreezeInst"
  | atomicCmpXchgInst => "AtomicCmpXchgInst"
  | atomicRmwInst => "AtomicRmwInst"
  | fenceInst => "FenceInst"

/-- The name of the class that the probe tests for: its own name, but for the spelling of the
abbreviations in it. -/
def className : Probe → String
  | mdNode => "MDNode"
  | mdString => "MDString"
  | constantFp => "ConstantFP"
  | phiNode => "PHINode"
  | fpExtInst => "FPExtInst"
  | fpToSiInst => "FPToSIInst"
  | fpToUiInst => "FPToUIInst"
  | fpTruncInst => "FPTruncInst"
  | siToFpInst => "SIToFPInst"
  | uiToFpInst => "UIToFPInst"
  | vaArgInst => "VAArgInst"
  | atomicRmwInst => "AtomicRMWInst"
  | p => p.name

def ofName? (s : String) : Option Probe :=
  all.find? (·.name == s)

theorem mem_all (p : Probe) : p ∈ all := by
  cases p <;> decide

end Probe

end CanonIR
