import CanonIR.Binding.Blocks

/-!
Requests: what the users of the bindings can ask for, as data. A request has operands, which its
user holds while it is under way, and an operation, which hands references to its results over.
-/

namespace CanonIR

/-- Types whose members bring references along. -/
class Carries (α : Type) where
  references : α → List Reference

namespace Carries

instance : Carries Unit := ⟨fun _ => []⟩
instance : Carries Bool := ⟨fun _ => []⟩
instance : Carries Nat := ⟨fun _ => []⟩
instance : Carries String := ⟨fun _ => []⟩
instance {k : HandleKind} : Carries (Handle k) := ⟨fun _ => []⟩
instance : Carries Opcode := ⟨fun _ => []⟩
instance : Carries IntPredicate := ⟨fun _ => []⟩
instance : Carries RealPredicate := ⟨fun _ => []⟩
instance : Carries Reference := ⟨fun r => [r]⟩
instance : Carries Context := ⟨fun cx => [.context cx]⟩
instance : Carries TypeWrapper := ⟨fun t => [.type t]⟩
instance : Carries ValueWrapper := ⟨fun v => [.value v]⟩
instance {V : View} : Carries (Viewed V) := ⟨fun x => [.value x.value]⟩

variable {α β : Type} [Carries α] [Carries β]

instance (c : Call) : Carries c.Answer := ⟨fun _ => []⟩
instance : Carries (Option α) := ⟨fun x => x.toList.flatMap references⟩
instance : Carries (List α) := ⟨fun l => l.flatMap references⟩
instance : Carries (α × β) := ⟨fun x => references x.1 ++ references x.2⟩

end Carries

/-- A request to the bindings. A gate is reached through any object of its context. -/
inductive Request where
  | createContext (lib : LibraryId) (options : ContextOptions)
  | attachContext (lib : LibraryId) (raw : ContextRef) (options : ContextOptions)
  | internType (via : Reference) (h : TypeRef)
  | internValue (via : Reference) (h : ValueRef)
  | internBlock (via : Reference) (b : BlockRef)
  | copy (r : Reference)
  | contextOf (r : Reference)
  | intWidth (t : TypeWrapper)
  | typeOf (v : ValueWrapper)
  | nameOf (v : ValueWrapper)
  | setName (v : ValueWrapper) (name : String)
  | users (v : ValueWrapper)
  /-- The first use of a value, to go through its users one at a time. -/
  | firstUse (v : ValueWrapper)
  | stepUse (v : ValueWrapper) (u : UseRef)
  | opcode (i : Instruction)
  | parentBlock (i : Instruction)
  | nextInstruction (i : Instruction)
  | terminatorSuccessors (t : Terminator)
  | isVolatile (v : ValueWrapper)
  | setVolatile (v : ValueWrapper) (flag : Bool)
  | iCmpPredicate (c : Viewed .iCmp)
  | fCmpPredicate (c : Viewed .fCmp)
  | blockRef (bb : BasicBlock)
  | parent (bb : BasicBlock)
  | terminator (bb : BasicBlock)
  | successors (bb : BasicBlock)
  | predecessors (bb : BasicBlock)
  | next (bb : BasicBlock)
  | previous (bb : BasicBlock)
  | firstInstruction (bb : BasicBlock)
  | lastInstruction (bb : BasicBlock)
  | instructions (bb : BasicBlock)
  | moveBefore (bb position : BasicBlock)
  | moveAfter (bb position : BasicBlock)
  | insertBefore (bb : BasicBlock) (name : String)
  | delete (bb : BasicBlock)

namespace Request

/-- The references that the user holds while the request is under way. -/
def operands : Request → List Reference
  | createContext _ _ | attachContext _ _ _ => []
  | internType via _ | internValue via _ | internBlock via _ => [via]
  | copy r | contextOf r => [r]
  | intWidth t => [.type t]
  | typeOf v | nameOf v | setName v _ | users v | firstUse v | stepUse v _ | isVolatile v
  | setVolatile v _ => [.value v]
  | opcode i | parentBlock i | nextInstruction i => [.value i.value]
  | terminatorSuccessors t => [.value t.value]
  | iCmpPredicate c => [.value c.value]
  | fCmpPredicate c => [.value c.value]
  | blockRef bb | parent bb | terminator bb | successors bb | predecessors bb | next bb
  | previous bb | firstInstruction bb | lastInstruction bb | instructions bb
  | insertBefore bb _ | delete bb => [.value bb.value]
  | moveBefore bb position | moveAfter bb position => [.value bb.value, .value position.value]

/-- An operation that hands over the references which its result brings. -/
def handing {α : Type} [Carries α] (op : Operation α) : Operation (List Reference) :=
  Carries.references <$> op

/-- What is done on a request. -/
def operation : Request → Operation (List Reference)
  | createContext lib options => handing (Operation.createContext lib options)
  | attachContext lib raw options => handing (Operation.attachContext lib raw options)
  | internType via h => handing (Operation.internType via.owner h)
  | internValue via h => handing (Operation.internValue via.owner h)
  | internBlock via b => handing (Operation.internBlock via.owner b)
  | copy r => handing (do Operation.hold r; return r)
  | contextOf r => handing (do Operation.hold (.context r.owner); return r.owner)
  | intWidth t => handing (Operation.intWidth? t)
  | typeOf v => handing (Operation.typeOf v)
  | nameOf v => handing (Operation.nameOf v)
  | setName v name => handing (Operation.setName v name)
  | users v => handing (Operation.users v)
  | firstUse v => handing (Operation.ask v (.firstUse v.handle))
  | stepUse v u => handing (Operation.stepUse v u)
  | opcode i => handing (Operation.opcode? i)
  | parentBlock i => handing (Operation.parentBlock i)
  | nextInstruction i => handing (Operation.nextInstruction i)
  | terminatorSuccessors t => handing (Operation.terminatorSuccessors t)
  | isVolatile v => handing (Operation.isVolatile v)
  | setVolatile v flag => handing (Operation.setVolatile v flag)
  | iCmpPredicate c => handing (Operation.iCmpPredicate? c)
  | fCmpPredicate c => handing (Operation.fCmpPredicate? c)
  | blockRef bb => handing (Operation.blockRef bb)
  | parent bb => handing (Operation.parent bb)
  | terminator bb => handing (Operation.terminator bb)
  | successors bb => handing (Operation.successors bb)
  | predecessors bb => handing (Operation.predecessors bb)
  | next bb => handing (Operation.next bb)
  | previous bb => handing (Operation.previous bb)
  | firstInstruction bb => handing (Operation.firstInstruction bb)
  | lastInstruction bb => handing (Operation.lastInstruction bb)
  | instructions bb => handing (Operation.instructions bb)
  | moveBefore bb position => handing (Operation.moveBefore bb position)
  | moveAfter bb position => handing (Operation.moveAfter bb position)
  | insertBefore bb name => handing (Operation.insertBefore bb name)
  | delete bb => handing (Operation.delete bb)

end Request

end CanonIR
