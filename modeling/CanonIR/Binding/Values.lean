import CanonIR.Binding.Operation
import CanonIR.Kind.Predicate

/-!
Operations on wrapped types and values: the type, the name and the users of a value, what
instructions and terminators lead to, the volatile flag of memory accesses, and comparisons.
-/

namespace CanonIR.Operation

/-- The width of an integer type; nothing for other types. -/
def intWidth? (t : TypeWrapper) : Operation (Option Nat) := do
  if t.kind = .integer then
    return some (← call t.context.library (.intTypeWidth t.handle))
  return none

/-! ## Values -/

/-- Makes a call to the library of a value. -/
def ask (v : ValueWrapper) (c : Call) : Operation c.Answer := call v.context.library c

def typeOf (v : ValueWrapper) : Operation (Option TypeWrapper) := do
  internType v.context (← ask v (.typeOf v.handle))

def nameOf (v : ValueWrapper) : Operation String := ask v (.valueName v.handle)

def setName (v : ValueWrapper) (name : String) : Operation Unit :=
  ask v (.setValueName v.handle name)

/-- The user of a use. The link to the next use is read before it. -/
def stepUse (v : ValueWrapper) (u : UseRef) : Operation (UseRef × Option ValueWrapper) := do
  let next ← ask v (.nextUse u)
  let user ← internValue v.context (← ask v (.useUser u))
  return (next, user)

/-- The users of a value from one of its uses on. -/
def usersFrom (v : ValueWrapper) : (limit : Nat) → UseRef → Operation (List ValueWrapper)
  | limit, u => do
    if u.isNull then return []
    match limit with
    | 0 => fail .endlessWalk
    | limit + 1 =>
      match ← stepUse v u with
      | (next, none) => usersFrom v limit next
      | (next, some user) =>
        orRelease (.value user) do
          return user :: (← usersFrom v limit next)

/-- The users of a value, one for each use, in the order of the uses. -/
def users (v : ValueWrapper) : Operation (List ValueWrapper) := do
  let first ← ask v (.firstUse v.handle)
  usersFrom v (← walkLimit v.context.library) first

/-! ## Instructions and terminators -/

/-- The opcode of an instruction; nothing if the library reports a number that no opcode has. -/
def opcode? (i : Instruction) : Operation (Option Opcode) := do
  return Opcode.ofNumber? (← ask i.value (.instructionOpcode i.value.handle))

/-- The block of an instruction; nothing if it is in none. -/
def parentBlock (i : Instruction) : Operation (Option BasicBlock) := do
  internBlock i.value.context (← ask i.value (.instructionParent i.value.handle))

def nextInstruction (i : Instruction) : Operation (Option ValueWrapper) := do
  internValue i.value.context (← ask i.value (.nextInstruction i.value.handle))

/-- The successors of a terminator at some operand positions. -/
def successorsAt (t : Terminator) : List Nat → Operation (List BasicBlock)
  | [] => return []
  | i :: is => do
    match ← internBlock t.value.context (← ask t.value (.successor t.value.handle i)) with
    | none => successorsAt t is
    | some bb =>
      orRelease (.value bb.value) do
        return bb :: (← successorsAt t is)

/-- The successors of a terminator, in operand order. -/
def terminatorSuccessors (t : Terminator) : Operation (List BasicBlock) := do
  let count ← ask t.value (.successorCount t.value.handle)
  successorsAt t (List.range count)

/-! ## Memory accesses and comparisons -/

def isVolatile (v : ValueWrapper) : Operation Bool := ask v (.isVolatile v.handle)

def setVolatile (v : ValueWrapper) (flag : Bool) : Operation Unit :=
  ask v (.setVolatile v.handle flag)

/-- The number of the predicate of a comparison of integers. -/
def iCmpNumber (c : Viewed .iCmp) : Operation Nat := ask c.value (.iCmpPredicate c.value.handle)

/-- The number of the predicate of a comparison of floating-point numbers. -/
def fCmpNumber (c : Viewed .fCmp) : Operation Nat := ask c.value (.fCmpPredicate c.value.handle)

def iCmpPredicate? (c : Viewed .iCmp) : Operation (Option IntPredicate) := do
  return IntPredicate.ofNumber? (← iCmpNumber c)

def fCmpPredicate? (c : Viewed .fCmp) : Operation (Option RealPredicate) := do
  return RealPredicate.ofNumber? (← fCmpNumber c)

end CanonIR.Operation
