import CanonIR.Handle
import CanonIR.Table
import CanonIR.Kind.Opcode
import CanonIR.Kind.Probe
import CanonIR.Kind.Type

/-!
The object graph of an in-memory native library. Objects stand in tables under their handles; a
value is described by the list of probes that hold of it. All kinds of objects draw their addresses
from one counter. A handle that no table knows denotes nothing, and what is done to it is ignored.
-/

namespace CanonIR.Memory

structure TypeEntry where
  /-- The native number of the kind, which need not be the number of any. -/
  kind : Nat
  /-- The width of an integer type. -/
  width : Nat := 0
  deriving DecidableEq

structure ValueEntry where
  /-- The probes that hold of the value. -/
  probes : List Probe := []
  opcode : Nat := 0
  type : TypeRef := .null
  name : String := ""
  isVolatile : Bool := false
  predicate : Nat := 0
  /-- The block that holds the value, if it is an instruction in one. -/
  parent : BlockRef := .null
  successors : List BlockRef := []
  /-- The uses of the value, oldest first. -/
  uses : List UseRef := []
  deriving DecidableEq

structure BlockEntry where
  /-- The value shape of the block. -/
  value : ValueRef
  function : ValueRef
  instructions : List ValueRef := []
  deriving DecidableEq

structure UseEntry where
  used : ValueRef
  user : ValueRef
  deriving DecidableEq

/-- The objects of a library. -/
structure Graph where
  /-- The number of addresses handed out. -/
  allocated : Nat := 0
  /-- The disposed contexts, in the order of their disposal. -/
  disposed : List ContextRef := []
  types : Table TypeRef TypeEntry := ∅
  /-- The integer type of each context and width. -/
  intTypes : Table (ContextRef × Nat) TypeRef := ∅
  values : Table ValueRef ValueEntry := ∅
  blocks : Table BlockRef BlockEntry := ∅
  /-- The blocks of each function, in order. -/
  layouts : Table ValueRef (List BlockRef) := ∅
  uses : Table UseRef UseEntry := ∅

instance : Inhabited Graph := ⟨{}⟩

namespace Graph

/-- The address in front of the first one that is handed out. -/
def baseAddress : Nat := 0x7f0000001000

/-- The distance between addresses handed out one after the other. -/
def stride : Nat := 0x40

/-- Hands out an address. -/
def alloc (g : Graph) : Nat × Graph :=
  let n := g.allocated + 1
  (baseAddress + n * stride, { g with allocated := n })

/-! ## Types and contexts -/

def newContext (g : Graph) : ContextRef × Graph :=
  let (a, g) := g.alloc
  (⟨a⟩, g)

/-- A type with any kind number. -/
def newType (g : Graph) (entry : TypeEntry) : TypeRef × Graph :=
  let (a, g) := g.alloc
  (⟨a⟩, { g with types := g.types.insert ⟨a⟩ entry })

/-- The integer type of a context and a width, which is made when it is first asked for. -/
def intType (g : Graph) (cx : ContextRef) (width : Nat) : TypeRef × Graph :=
  match g.intTypes.get? (cx, width) with
  | some ty => (ty, g)
  | none =>
    let (ty, g) := g.newType ⟨TypeKind.integer.number, width⟩
    (ty, { g with intTypes := g.intTypes.insert (cx, width) ty })

/-! ## Values and uses -/

def newValue (g : Graph) (entry : ValueEntry) : ValueRef × Graph :=
  let (a, g) := g.alloc
  (⟨a⟩, { g with values := g.values.insert ⟨a⟩ entry })

/-- A value that belongs to no block, with the probes that hold of it. -/
def value (g : Graph) (probes : List Probe) : ValueRef × Graph :=
  g.newValue { probes }

/-- A constant expression with any opcode number. -/
def constExpr (g : Graph) (opcode : Nat) : ValueRef × Graph :=
  g.newValue { probes := [.user, .constant, .constantExpr], opcode }

/-- A function without blocks. -/
def function (g : Graph) : ValueRef × Graph :=
  let (f, g) := g.newValue
    { probes := [.user, .constant, .globalValue, .globalObject, .function] }
  (f, { g with layouts := g.layouts.insert f [] })

/-- Puts a new value at the address of a dead one; the address must not be in use. -/
def reuseAddress (g : Graph) (dead : ValueRef) (probes : List Probe) : Option Graph :=
  if g.values.contains dead then none
  else some { g with values := g.values.insert dead { probes } }

def setType (g : Graph) (v : ValueRef) (ty : TypeRef) : Graph :=
  { g with values := g.values.modify v fun e => { e with type := ty } }

def setPredicate (g : Graph) (v : ValueRef) (n : Nat) : Graph :=
  { g with values := g.values.modify v fun e => { e with predicate := n } }

/-- Records that one value uses another. -/
def addUse (g : Graph) (used user : ValueRef) : UseRef × Graph :=
  let (a, g) := g.alloc
  (⟨a⟩, { g with
    uses := g.uses.insert ⟨a⟩ ⟨used, user⟩
    values := g.values.modify used fun e => { e with uses := e.uses ++ [⟨a⟩] } })

/-! ## Blocks -/

/-- The blocks of a function, in order. -/
def layout (g : Graph) (f : ValueRef) : List BlockRef :=
  (g.layouts.get? f).getD []

/-- The value shape of a block. -/
def blockValue (g : Graph) (b : BlockRef) : ValueRef :=
  (g.blocks.get? b).elim .null (·.value)

/-- A block of a function that is not in its layout yet. The value shape is allocated first. -/
def newBlock (g : Graph) (f : ValueRef) (name : String) : BlockRef × Graph :=
  let (v, g) := g.newValue { probes := [.basicBlock], name }
  let (a, g) := g.alloc
  (⟨a⟩, { g with blocks := g.blocks.insert ⟨a⟩ ⟨v, f, []⟩ })

/-- A new block at the end of a function. -/
def appendBlock (g : Graph) (f : ValueRef) (name : String) : BlockRef × Graph :=
  let (b, g) := g.newBlock f name
  (b, { g with layouts := g.layouts.insert f (g.layout f ++ [b]) })

/-- The function of a block and the position of the block in its layout. -/
def blockPosition? (g : Graph) (b : BlockRef) : Option (ValueRef × Nat) := do
  let entry ← g.blocks.get? b
  let index ← (g.layout entry.function).idxOf? b
  return (entry.function, index)

/-- Takes a block out of the layout of its function. -/
def detachBlock? (g : Graph) (b : BlockRef) : Option (ValueRef × Graph) := do
  let (f, index) ← g.blockPosition? b
  return (f, { g with layouts := g.layouts.insert f ((g.layout f).eraseIdx index) })

/-! ## Instructions -/

/-- A new instruction at the end of a block; the classes above all instructions are implied. -/
def instruction (g : Graph) (b : BlockRef) (probes : List Probe) (opcode : Opcode) :
    ValueRef × Graph :=
  let (v, g) := g.newValue
    { probes := .user :: .instruction :: probes, opcode := opcode.number, parent := b }
  (v, { g with
    blocks := g.blocks.modify b fun e => { e with instructions := e.instructions ++ [v] } })

/-- Records that a terminator uses the value shape of a block, if there is such a block. -/
def addEdge (term : ValueRef) (g : Graph) (target : BlockRef) : Graph :=
  match g.blocks.get? target with
  | some e => (g.addUse e.value term).2
  | none => g

/-- A branch from a block to others; it uses each of them, in order. -/
def branch (g : Graph) (b : BlockRef) (targets : List BlockRef) : ValueRef × Graph :=
  let (term, g) := g.instruction b [.terminatorInst, .branchInst] .br
  let g := { g with values := g.values.modify term fun e => { e with successors := targets } }
  (term, targets.foldl (addEdge term) g)

end Graph

end CanonIR.Memory
