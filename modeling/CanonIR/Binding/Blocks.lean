import CanonIR.Binding.Values

/-!
Basic blocks. A library knows a block under two handles, its value shape and its block shape. The
wrapper stands under the value shape; the block shape is asked for when it is first needed, unless
the block was reached through it, and is kept with the wrapper.
-/

namespace CanonIR.Operation

/-! ## Navigation -/

/-- The function of a block. -/
def parent (bb : BasicBlock) : Operation (Option ValueWrapper) := do
  internValue bb.value.context (← ask bb.value (.blockParent (← blockRef bb)))

/-- The terminator of a block; nothing while the block has none. -/
def terminator (bb : BasicBlock) : Operation (Option Terminator) := do
  let h ← ask bb.value (.blockTerminator (← blockRef bb))
  downcast .terminator (← internValue bb.value.context h)

/-- The blocks that the terminator of a block leads to, in operand order. -/
def successors (bb : BasicBlock) : Operation (List BasicBlock) := do
  match ← terminator bb with
  | none => return []
  | some t => releasing (.value t.value) (terminatorSuccessors t)

/-- The block of a user that is a terminator. -/
def predecessorOf (user : ValueWrapper) : Operation (Option BasicBlock) := do
  if user.isA (.ofClass .terminatorInst) then
    match user.downcast? .instruction with
    | some i => parentBlock i
    | none => return none
  else return none

/-- The predecessors of a block that its users from one use on add to those found before. -/
def predecessorsFrom (bb : BasicBlock) :
    (limit : Nat) → (found : List BasicBlock) → UseRef → Operation (List BasicBlock)
  | limit, found, u => do
    if u.isNull then return []
    match limit with
    | 0 => fail .endlessWalk
    | limit + 1 =>
      match ← stepUse bb.value u with
      | (next, none) => predecessorsFrom bb limit found next
      | (next, some user) =>
        match ← releasing (.value user) (predecessorOf user) with
        | none => predecessorsFrom bb limit found next
        | some p =>
          if found.any (·.value.id == p.value.id) then
            release (.value p.value)
            predecessorsFrom bb limit found next
          else
            orRelease (.value p.value) do
              return p :: (← predecessorsFrom bb limit (found ++ [p]) next)

/-- The blocks whose terminators lead to a block, each once, in the order of their first uses. -/
def predecessors (bb : BasicBlock) : Operation (List BasicBlock) := do
  let first ← ask bb.value (.firstUse bb.value.handle)
  predecessorsFrom bb (← walkLimit bb.value.context.library) [] first

/-- The block behind another one in its function. -/
def next (bb : BasicBlock) : Operation (Option BasicBlock) := do
  internBlock bb.value.context (← ask bb.value (.nextBlock (← blockRef bb)))

/-- The block in front of another one in its function. -/
def previous (bb : BasicBlock) : Operation (Option BasicBlock) := do
  internBlock bb.value.context (← ask bb.value (.previousBlock (← blockRef bb)))

def firstInstruction (bb : BasicBlock) : Operation (Option ValueWrapper) := do
  internValue bb.value.context (← ask bb.value (.firstInstruction (← blockRef bb)))

def lastInstruction (bb : BasicBlock) : Operation (Option ValueWrapper) := do
  internValue bb.value.context (← ask bb.value (.lastInstruction (← blockRef bb)))

/-- The instructions from a wrapped one on, which is among them. -/
def instructionsFrom : (limit : Nat) → ValueWrapper → Operation (List ValueWrapper)
  | limit, v =>
    orRelease (.value v) do
      match limit with
      | 0 => fail .endlessWalk
      | limit + 1 =>
        match v.downcast? .instruction with
        | none => return [v]
        | some i =>
          match ← nextInstruction i with
          | none => return [v]
          | some next => return v :: (← instructionsFrom limit next)

/-- The instructions of a block, in order. -/
def instructions (bb : BasicBlock) : Operation (List ValueWrapper) := do
  let limit ← walkLimit bb.value.context.library
  match ← firstInstruction bb with
  | none => return []
  | some v => instructionsFrom limit v

/-! ## Changes -/

/-- Moves a block right before another one. -/
def moveBefore (bb position : BasicBlock) : Operation Unit := do
  let b ← blockRef bb
  let p ← blockRef position
  ask bb.value (.moveBlockBefore b p)

/-- Moves a block right behind another one. -/
def moveAfter (bb position : BasicBlock) : Operation Unit := do
  let b ← blockRef bb
  let p ← blockRef position
  ask bb.value (.moveBlockAfter b p)

/-- Makes an empty block right before another one. -/
def insertBefore (bb : BasicBlock) (name : String) : Operation (Option BasicBlock) := do
  let b ← blockRef bb
  internBlock bb.value.context
    (← ask bb.value (.insertBlockBefore bb.value.context.raw b name))

/-- Forgets the instructions of a block from one on. Nothing is classified on the way. -/
def forgetInstructions (bb : BasicBlock) : (limit : Nat) → ValueRef → Operation Unit
  | limit, h => do
    if h.isNull then return
    match limit with
    | 0 => fail .endlessWalk
    | limit + 1 =>
      let next ← ask bb.value (.nextInstruction h)
      forgetValue bb.value.context h
      forgetInstructions bb limit next

/-- Deletes a native block, and forgets the wrappers of the block and of its instructions.
References to these wrappers keep them alive, but their handles denote nothing any more. -/
def delete (bb : BasicBlock) : Operation Unit := do
  let b ← blockRef bb
  emit (.deletingBlock bb.value.handle b)
  let first ← ask bb.value (.firstInstruction b)
  forgetInstructions bb (← walkLimit bb.value.context.library) first
  forgetValue bb.value.context bb.value.handle
  ask bb.value (.deleteBlock b)

end CanonIR.Operation
