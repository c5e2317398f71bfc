import CanonIR.Handle
import CanonIR.Kind.Probe

/-!
Calls to a native library. A call is a value, and `Call.Answer` is the type of its answers; all that
a binding learns from or does to a library passes through such calls.
-/

namespace CanonIR

/-- A call to a native library with its arguments. -/
inductive Call where
  | createContext
  /-- Ends a context; every handle made under it becomes invalid. -/
  | disposeContext (cx : ContextRef)
  | typeKind (ty : TypeRef)
  | intTypeWidth (ty : TypeRef)
  | isA (value : ValueRef) (probe : Probe)
  | constOpcode (value : ValueRef)
  | typeOf (value : ValueRef)
  | valueName (value : ValueRef)
  | setValueName (value : ValueRef) (name : String)
  | firstUse (value : ValueRef)
  | nextUse (use : UseRef)
  | useUser (use : UseRef)
  | instructionOpcode (inst : ValueRef)
  | instructionParent (inst : ValueRef)
  | nextInstruction (inst : ValueRef)
  | isVolatile (inst : ValueRef)
  | setVolatile (inst : ValueRef) (flag : Bool)
  | iCmpPredicate (value : ValueRef)
  | fCmpPredicate (value : ValueRef)
  | successorCount (term : ValueRef)
  | successor (term : ValueRef) (index : Nat)
  /-- The block shape of a value. -/
  | valueAsBlock (value : ValueRef)
  /-- The value shape of a block. -/
  | blockAsValue (block : BlockRef)
  | blockParent (block : BlockRef)
  | blockTerminator (block : BlockRef)
  | nextBlock (block : BlockRef)
  | previousBlock (block : BlockRef)
  | firstInstruction (block : BlockRef)
  | lastInstruction (block : BlockRef)
  | moveBlockBefore (block position : BlockRef)
  | moveBlockAfter (block position : BlockRef)
  /-- Makes an empty block in front of another. -/
  | insertBlockBefore (cx : ContextRef) (before : BlockRef) (name : String)
  | deleteBlock (block : BlockRef)
  deriving DecidableEq

namespace Call

/-- The type of the answers to a call. Numbers are the native numbers of kinds, opcodes and
predicates; where there is no object to answer with, the answer is a null handle. -/
abbrev Answer : Call → Type
  | createContext => ContextRef
  | disposeContext _ => Unit
  | typeKind _ => Nat
  | intTypeWidth _ => Nat
  | isA _ _ => Bool
  | constOpcode _ => Nat
  | typeOf _ => TypeRef
  | valueName _ => String
  | setValueName _ _ => Unit
  | firstUse _ => UseRef
  | nextUse _ => UseRef
  | useUser _ => ValueRef
  | instructionOpcode _ => Nat
  | instructionParent _ => BlockRef
  | nextInstruction _ => ValueRef
  | isVolatile _ => Bool
  | setVolatile _ _ => Unit
  | iCmpPredicate _ => Nat
  | fCmpPredicate _ => Nat
  | successorCount _ => Nat
  | successor _ _ => BlockRef
  | valueAsBlock _ => BlockRef
  | blockAsValue _ => ValueRef
  | blockParent _ => ValueRef
  | blockTerminator _ => ValueRef
  | nextBlock _ => BlockRef
  | previousBlock _ => BlockRef
  | firstInstruction _ => ValueRef
  | lastInstruction _ => ValueRef
  | moveBlockBefore _ _ => Unit
  | moveBlockAfter _ _ => Unit
  | insertBlockBefore _ _ _ => BlockRef
  | deleteBlock _ => Unit

/-- The name of the called entry point. -/
def name : Call → String
  | createContext => "create_context"
  | disposeContext _ => "dispose_context"
  | typeKind _ => "type_kind"
  | intTypeWidth _ => "int_type_width"
  | isA _ _ => "is_a"
  | constOpcode _ => "const_opcode"
  | typeOf _ => "type_of"
  | valueName _ => "value_name"
  | setValueName _ _ => "set_value_name"
  | firstUse _ => "first_use"
  | nextUse _ => "next_use"
  | useUser _ => "use_user"
  | instructionOpcode _ => "instruction_opcode"
  | instructionParent _ => "instruction_parent"
  | nextInstruction _ => "next_instruction"
  | isVolatile _ => "is_volatile"
  | setVolatile _ _ => "set_volatile"
  | iCmpPredicate _ => "icmp_predicate"
  | fCmpPredicate _ => "fcmp_predicate"
  | successorCount _ => "num_successors"
  | successor _ _ => "successor"
  | valueAsBlock _ => "value_as_basic_block"
  | blockAsValue _ => "basic_block_as_value"
  | blockParent _ => "block_parent"
  | blockTerminator _ => "block_terminator"
  | nextBlock _ => "next_block"
  | previousBlock _ => "previous_block"
  | firstInstruction _ => "first_instruction"
  | lastInstruction _ => "last_instruction"
  | moveBlockBefore _ _ => "move_block_before"
  | moveBlockAfter _ _ => "move_block_after"
  | insertBlockBefore _ _ _ => "insert_block_before"
  | deleteBlock _ => "delete_block"

/-- The arguments as text; the names that a call passes are left out. -/
def arguments : Call → List String
  | createContext => []
  | disposeContext cx => [cx.text]
  | typeKind ty | intTypeWidth ty => [ty.text]
  | isA v p => [v.text, p.name]
  | constOpcode v | typeOf v | valueName v | setValueName v _ | firstUse v
  | instructionOpcode v | instructionParent v | nextInstruction v | isVolatile v
  | iCmpPredicate v | fCmpPredicate v | successorCount v | valueAsBlock v => [v.text]
  | nextUse u | useUser u => [u.text]
  | setVolatile v flag => [v.text, if flag then "true" else "false"]
  | successor v i => [v.text, toString i]
  | blockAsValue b | blockParent b | blockTerminator b | nextBlock b | previousBlock b
  | firstInstruction b | lastInstruction b | deleteBlock b => [b.text]
  | moveBlockBefore b p | moveBlockAfter b p => [b.text, p.text]
  | insertBlockBefore cx b _ => [cx.text, b.text]

/-- An entry point applied to arguments. -/
def applied (name : String) (arguments : List String) : String :=
  name ++ "(" ++ ", ".intercalate arguments ++ ")"

/-- The call as text, such as `is_a(ValueRef(0x40), User)`. -/
def text (c : Call) : String := applied c.name c.arguments

/-- The size of the numbers that a library can answer with. -/
def numberRange : Nat := 0x100000000

/-- The answer that a plain number stands for: an address, a number, or a flag that is set unless
the number is zero. Names and calls without an answer have no such form. -/
def answerOfNumber? (n : Nat) : (c : Call) → Option c.Answer
  | createContext => some ⟨n⟩
  | disposeContext _ => none
  | typeKind _ => some (n % numberRange)
  | intTypeWidth _ => some (n % numberRange)
  | isA _ _ => some (n != 0)
  | constOpcode _ => some (n % numberRange)
  | typeOf _ => some ⟨n⟩
  | valueName _ => none
  | setValueName _ _ => none
  | firstUse _ => some ⟨n⟩
  | nextUse _ => some ⟨n⟩
  | useUser _ => some ⟨n⟩
  | instructionOpcode _ => some (n % numberRange)
  | instructionParent _ => some ⟨n⟩
  | nextInstruction _ => some ⟨n⟩
  | isVolatile _ => some (n != 0)
  | setVolatile _ _ => none
  | iCmpPredicate _ => some (n % numberRange)
  | fCmpPredicate _ => some (n % numberRange)
  | successorCount _ => some (n % numberRange)
  | successor _ _ => some ⟨n⟩
  | valueAsBlock _ => some ⟨n⟩
  | blockAsValue _ => some ⟨n⟩
  | blockParent _ => some ⟨n⟩
  | blockTerminator _ => some ⟨n⟩
  | nextBlock _ => some ⟨n⟩
  | previousBlock _ => some ⟨n⟩
  | firstInstruction _ => some ⟨n⟩
  | lastInstruction _ => some ⟨n⟩
  | moveBlockBefore _ _ => none
  | moveBlockAfter _ _ => none
  | insertBlockBefore _ _ _ => some ⟨n⟩
  | deleteBlock _ => none

end Call

end CanonIR
