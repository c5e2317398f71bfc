import CanonIR.Kind.Opcode

/-!
Constant expressions: the opcodes that can head one, each with a kind of its own. The class tests of
a native library only establish that a value is a constant expression; its opcode then selects the
kind (`Opcode.constExpr?`).
-/

namespace CanonIR

/-- The kinds of constant expressions. -/
inductive ConstExprKind where
  | add
  | sub
  | mul
  | shl
  | lShr
  | aShr
  | and
  | or
  | xor
  | trunc
  | zExt
  | sExt
  | fpToUi
  | fpToSi
  | uiToFp
  | siToFp
  | fpTrunc
  | fpExt
  | ptrToInt
  | intToPtr
  | bitCast
  | addrSpaceCast
  | getElementPtr
  | iCmp
  | fCmp
  | extractElement
  | insertElement
  | shuffleVector
  deriving DecidableEq

namespace ConstExprKind

/-- Every kind, in its fixed order. -/
def all : List ConstExprKind :=
  [.add, .sub, .mul, .shl, .lShr, .aShr, .and, .or, .xor, .trunc, .zExt, .sExt, .fpToUi, .fpToSi,
   .uiToFp, .siToFp, .fpTrunc, .fpExt, .ptrToInt, .intToPtr, .bitCast, .addrSpaceCast,
   .getElementPtr, .iCmp, .fCmp, .extractElement, .insertElement, .shuffleVector]

/-- The opcode that selects the kind. -/
def opcode : ConstExprKind → Opcode
  | add => .add
  | sub => .sub
  | mul => .mul
  | shl => .shl
  | lShr => .lShr
  | aShr => .aShr
  | and => .and
  | or => .or
  | xor => .xor
  | trunc => .trunc
  | zExt => .zExt
  | sExt => .sExt
  | fpToUi => .fpToUi
  | fpToSi => .fpToSi
  | uiToFp => .uiToFp
  | siToFp => .siToFp
  | fpTrunc => .fpTrunc
  | fpExt => .fpExt
  | ptrToInt => .ptrToInt
  | intToPtr => .intToPtr
  | bitCast => .bitCast
  | addrSpaceCast => .addrSpaceCast
  | getElementPtr => .getElementPtr
  | iCmp => .iCmp
  | fCmp => .fCmp
  | extractElement => .extractElement
  | insertElement => .insertElement
  | shuffleVector => .shuffleVector

/-- A kind has the name of its opcode. -/
def name (k : ConstExprKind) : String := k.opcode.name

/-- The name with its class in front, such as `ConstantExpr::Add`. -/
def className (k : ConstExprKind) : String := "ConstantExpr::" ++ k.name

def isComparison : ConstExprKind → Bool
  | iCmp | fCmp => true
  | _ => false

def isCast : ConstExprKind → Bool
  | trunc | zExt | sExt | fpToUi | fpToSi | uiToFp | siToFp | fpTrunc | fpExt | ptrToInt
  | intToPtr | bitCast | addrSpaceCast => true
  | _ => false

theorem mem_all (k : ConstExprKind) : k ∈ all := by
  cases k <;> decide

end ConstExprKind

namespace Opcode

/-- The kind of the constant expressions that the opcode heads; nothing if it can head none. -/
def constExpr? : Opcode → Option ConstExprKind
  | add => some .add
  | sub => some .sub
  | mul => some .mul
  | shl => some .shl
  | lShr => some .lShr
  | aShr => some .aShr
  | and => some .and
  | or => some .or
  | xor => some .xor
  | trunc => some .trunc
  | zExt => some .zExt
  | sExt => some .sExt
  | fpToUi => some .fpToUi
  | fpToSi => some .fpToSi
  | uiToFp => some .uiToFp
  | siToFp => some .siToFp
  | fpTrunc => some .fpTrunc
  | fpExt => some .fpExt
  | ptrToInt => some .ptrToInt
  | intToPtr => some .intToPtr
  | bitCast => some .bitCast
  | addrSpaceCast => some .addrSpaceCast
  | getElementPtr => some .getElementPtr
  | iCmp => some .iCmp
  | fCmp => some .fCmp
  | extractElement => some .extractElement
  | insertElement => some .insertElement
  | shuffleVector => some .shuffleVector
  -- Arithmetic that may trap or round, and selection and aggregates: no longer constant expressions.
  | fNeg | fAdd | fSub | fMul | uDiv | sDiv | fDiv | uRem | sRem | fRem | select | extractValue
  | insertValue => none
  | ret | br | switch | indirectBr | invoke | unreachable | callBr | alloca | load | store | phi
  | call | userOp1 | userOp2 | vaArg | freeze | fence | atomicCmpXchg | atomicRmw | resume
  | landingPad | cleanupRet | catchRet | catchPad | cleanupPad | catchSwitch => none

/-- The entry of the opcode in the table of constant expressions. -/
def constExprEntry (o : Opcode) : String :=
  match o.constExpr? with
  | some k => "Kind(" ++ k.name ++ ")"
  | none => "Impossible"

end Opcode

namespace ConstExprKind

theorem constExpr?_opcode (k : ConstExprKind) : k.opcode.constExpr? = some k := by
  cases k <;> rfl

theorem constExpr?_eq_some_iff {o : Opcode} {k : ConstExprKind} :
    o.constExpr? = some k ↔ k.opcode = o := by
  constructor
  · intro h
    cases o <;> cases h <;> rfl
  · intro heq
    subst heq
    exact constExpr?_opcode k

end ConstExprKind

end CanonIR
