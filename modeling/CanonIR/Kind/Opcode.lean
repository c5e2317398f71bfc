/-!
Opcodes of instructions, with the numbers by which a native library reports them.
-/

namespace CanonIR

/-- The opcodes, group by group: terminators, negation, binary arithmetic, bitwise operations,
memory, casts, other instructions, atomics, exception handling. -/
inductive Opcode where
  | ret
  | br
  | switch
  | indirectBr
  | invoke
  | unreachable
  | callBr
  | fNeg
  | add
  | fAdd
  | sub
  | fSub
  | mul
  | fMul
  | uDiv
  | sDiv
  | fDiv
  | uRem
  | sRem
  | fRem
  | shl
  | lShr
  | aShr
  | and
  | or
  | xor
  | alloca
  | load
  | store
  | getElementPtr
  | trunc
  | zExt
  | sExt
  | fpToUi
  | fpToSi
  | uiToFp
  | siToFp
  | fpTrunc
  | fpExt
  | ptrToInt
  | intToPtr
  | bitCast
  | addrSpaceCast
  | iCmp
  | fCmp
  | phi
  | call
  | select
  | userOp1
  | userOp2
  | vaArg
  | extractElement
  | insertElement
  | shuffleVector
  | extractValue
  | insertValue
  | freeze
  | fence
  | atomicCmpXchg
  | atomicRmw
  | resume
  | landingPad
  | cleanupRet
  | catchRet
  | catchPad
  | cleanupPad
  | catchSwitch
  deriving DecidableEq

namespace Opcode

/-- Every opcode, group by group. -/
def all : List Opcode :=
  [.ret, .br, .switch, .indirectBr, .invoke, .unreachable, .callBr, .fNeg, .add, .fAdd, .sub,
   .fSub, .mul, .fMul, .uDiv, .sDiv, .fDiv, .uRem, .sRem, .fRem, .shl, .lShr, .aShr, .and, .or,
   .xor, .alloca, .load, .store, .getElementPtr, .trunc, .zExt, .sExt, .fpToUi, .fpToSi, .uiToFp,
   .siToFp, .fpTrunc, .fpExt, .ptrToInt, .intToPtr, .bitCast, .addrSpaceCast, .iCmp, .fCmp, .phi,
   .call, .select, .userOp1, .userOp2, .vaArg, .extractElement, .insertElement, .shuffleVector,
   .extractValue, .insertValue, .freeze, .fence, .atomicCmpXchg, .atomicRmw, .resume, .landingPad,
   .cleanupRet, .catchRet, .catchPad, .cleanupPad, .catchSwitch]

/-- The number by which a native library reports the opcode. -/
def number : Opcode → Nat
  | ret => 1
  | br => 2
  | switch => 3
  | indirectBr => 4
  | invoke => 5
  | unreachable => 7
  | callBr => 67
  | fNeg => 66
  | add => 8
  | fAdd => 9
  | sub => 10
  | fSub => 11
  | mul => 12
  | fMul => 13
  | uDiv => 14
  | sDiv => 15
  | fDiv => 16
  | uRem => 17
  | sRem => 18
  | fRem => 19
  | shl => 20
  | lShr => 21
  | aShr => 22
  | and => 23
  | or => 24
  | xor => 25
  | alloca => 26
  | load => 27
  | store => 28
  | getElementPtr => 29
  | trunc => 30
  | zExt => 31
  | sExt => 32
  | fpToUi => 33
  | fpToSi => 34
  | uiToFp => 35
  | siToFp => 36
  | fpTrunc => 37
  | fpExt => 38
  | ptrToInt => 39
  | intToPtr => 40
  | bitCast => 41
  | addrSpaceCast => 60
  | iCmp => 42
  | fCmp => 43
  | phi => 44
  | call => 45
  | select => 46
  | userOp1 => 47
  | userOp2 => 48
  | vaArg => 49
  | extractElement => 50
  | insertElement => 51
  | shuffleVector => 52
  | extractValue => 53
  | insertValue => 54
  | freeze => 68
  | fence => 55
  | atomicCmpXchg => 56
  | atomicRmw => 57
  | resume => 58
  | landingPad => 59
  | cleanupRet => 61
  | catchRet => 62
  | catchPad => 63
  | cleanupPad => 64
  | catchSwitch => 65

/-- The opcode with a native number; nothing for a number that no opcode has. -/
def ofNumber? (n : Nat) : Option Opcode :=
  all.find? (·.number == n)

def name : Opcode → String
  | ret => "Ret"
  | br => "Br"
  | switch => "Switch"
  | indirectBr => "IndirectBr"
  | invoke => "Invoke"
  | unreachable => "Unreachable"
  | callBr => "CallBr"
  | fNeg => "FNeg"
  | add => "Add"
  | fAdd => "FAdd"
  | sub => "Sub"
  | fSub => "FSub"
  | mul => "Mul"
  | fMul => "FMul"
  | uDiv => "UDiv"
  | sDiv => "SDiv"
  | fDiv => "FDiv"
  | uRem => "URem"
  | sRem => "SRem"
  | fRem => "FRem"
  | shl => "Shl"
  | lShr => "LShr"
  | aShr => "AShr"
  | and => "And"
  | or => "Or"
  | xor => "Xor"
  | alloca => "Alloca"
  | load => "Load"
  | store => "Store"
  | getElementPtr => "GetElementPtr"
  | trunc => "Trunc"
  | zExt => "ZExt"
  | sExt => "SExt"
  | fpToUi => "FpToUi"
  | fpToSi => "FpToSi"
  | uiToFp => "UiToFp"
  | siToFp => "SiToFp"
  | fpTrunc => "FpTrunc"
  | fpExt => "FpExt"
  | ptrToInt => "PtrToInt"
  | intToPtr => "IntToPtr"
  | bitCast => "BitCast"
  | addrSpaceCast => "AddrSpaceCast"
  | iCmp => "ICmp"
  | fCmp => "FCmp"
  | phi => "Phi"
  | call => "Call"
  | select => "Select"
  | userOp1 => "UserOp1"
  | userOp2 => "UserOp2"
  | vaArg => "VaArg"
  | extractElement => "ExtractElement"
  | insertElement => "InsertElement"
  | shuffleVector => "ShuffleVector"
  | extractValue => "ExtractValue"
  | insertValue => "InsertValue"
  | freeze => "Freeze"
  | fence => "Fence"
  | atomicCmpXchg => "AtomicCmpXchg"
  | atomicRmw => "AtomicRmw"
  | resume => "Resume"
  | landingPad => "LandingPad"
  | cleanupRet => "CleanupRet"
  | catchRet => "CatchRet"
  | catchPad => "CatchPad"
  | cleanupPad => "CleanupPad"
  | catchSwitch => "CatchSwitch"

theorem mem_all (o : Opcode) : o ∈ all := by
  cases o <;> decide

theorem ofNumber?_number (o : Opcode) : ofNumber? o.number = some o := by
  cases o <;> rfl

theorem ofNumber?_eq_some_iff {n : Nat} {o : Opcode} : ofNumber? n = some o ↔ o.number = n := by
  refine ⟨fun h => ?_, fun h => h ▸ ofNumber?_number o⟩
  simpa using List.find?_some h

end Opcode

end CanonIR
