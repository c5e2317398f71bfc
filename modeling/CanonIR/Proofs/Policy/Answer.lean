import CanonIR.Proofs.Policy.Follow

/-!
What a request tells. The answer to a request is put down as a list of items, so that the answers of
two runs can be compared whatever was asked: numbers, texts and handles as they are, objects by the
references to them. Put under the tolerant policy, a request tells the same.
-/

namespace CanonIR

open UnknownValues (tolerate)

/-- A part of an answer. -/
inductive Item where
  | flag (b : Bool)
  | number (n : Nat)
  | text (s : String)
  | handle (k : HandleKind) (address : Nat)
  | opcode (o : Opcode)
  | intPredicate (x : IntPredicate)
  | realPredicate (x : RealPredicate)
  | object (r : Reference)
  deriving DecidableEq

namespace Item

instance : Policed Item where
  under p
    | object r => object (under p r)
    | x => x

/-- The object in an item. -/
def reference? : Item → Option Reference
  | object r => some r
  | _ => none

end Item

/-- Types whose members can be put down as items. What is told says which references come along, and
changes with the policies in it only. -/
class Tells (α : Type) [Policed α] [Carries α] where
  items : α → List Item
  carries : ∀ x, Carries.references x = (items x).filterMap Item.reference?
  items_under : ∀ p x, items (under p x) = under p (items x)

namespace Tells

instance : Tells Unit := ⟨fun _ => [], fun _ => rfl, fun _ _ => rfl⟩
instance : Tells Bool := ⟨fun b => [.flag b], fun _ => rfl, fun _ _ => rfl⟩
instance : Tells Nat := ⟨fun n => [.number n], fun _ => rfl, fun _ _ => rfl⟩
instance : Tells String := ⟨fun s => [.text s], fun _ => rfl, fun _ _ => rfl⟩
instance {k : HandleKind} : Tells (Handle k) :=
  ⟨fun h => [.handle k h.address], fun _ => rfl, fun _ _ => rfl⟩
instance : Tells Opcode := ⟨fun o => [.opcode o], fun _ => rfl, fun _ _ => rfl⟩
instance : Tells IntPredicate := ⟨fun x => [.intPredicate x], fun _ => rfl, fun _ _ => rfl⟩
instance : Tells RealPredicate := ⟨fun x => [.realPredicate x], fun _ => rfl, fun _ _ => rfl⟩
instance : Tells Reference := ⟨fun r => [.object r], fun _ => rfl, fun _ _ => rfl⟩
instance : Tells Context := ⟨fun cx => [.object (.context cx)], fun _ => rfl, fun _ _ => rfl⟩
instance : Tells TypeWrapper := ⟨fun t => [.object (.type t)], fun _ => rfl, fun _ _ => rfl⟩
instance : Tells ValueWrapper := ⟨fun v => [.object (.value v)], fun _ => rfl, fun _ _ => rfl⟩
instance {V : View} : Tells (Viewed V) :=
  ⟨fun x => [.object (.value x.value)], fun _ => rfl, fun _ _ => rfl⟩

variable {α β : Type} [Policed α] [Carries α] [Tells α] [Policed β] [Carries β] [Tells β]

instance : Tells (List α) where
  items l := l.flatMap items
  carries l := by
    show l.flatMap Carries.references = _
    rw [List.filterMap_flatMap]
    exact congrArg l.flatMap (funext carries)
  items_under p l := by
    show (l.map (under p)).flatMap items = (l.flatMap items).map (under p)
    rw [List.flatMap_map, List.map_flatMap]
    exact congrArg l.flatMap (funext (items_under p))

instance : Tells (Option α) where
  items x := items x.toList
  carries x := carries x.toList
  items_under p x := by
    cases x with
    | none => rfl
    | some x => exact items_under p [x]

instance : Tells (α × β) where
  items x := items x.1 ++ items x.2
  carries x := by
    rw [List.filterMap_append, ← carries, ← carries]
    rfl
  items_under p x := by
    show items (under p x.1) ++ items (under p x.2) = (items x.1 ++ items x.2).map (under p)
    rw [items_under, items_under, List.map_append]
    rfl

end Tells

namespace Operation

variable {α β γ : Type}

theorem map_map (f : α → β) (g : β → γ) (op : Operation α) : g <$> f <$> op = (g ∘ f) <$> op := by
  induction op with
  | done x => cases x <;> rfl
  | step a next ih => exact congrArg (step a) (funext ih)

variable [Policed α] [Carries α] [Tells α]

/-- An operation that puts its result down. -/
def telling (op : Operation α) : Operation (List Item) := Tells.items <$> op

theorem Follows.telling {op op' : Operation α} (h : Follows op op') :
    Follows op.telling op'.telling :=
  h.map (Tells.items_under tolerate)

end Operation

namespace Request

open Operation

/-- What a request tells. -/
def told : Request → Operation (List Item)
  | createContext lib options => telling (Operation.createContext lib options)
  | attachContext lib raw options => telling (Operation.attachContext lib raw options)
  | internType via h => telling (Operation.internType via.owner h)
  | internValue via h => telling (Operation.internValue via.owner h)
  | internBlock via b => telling (Operation.internBlock via.owner b)
  | copy r => telling (do Operation.hold r; return r)
  | contextOf r => telling (do Operation.hold (.context r.owner); return r.owner)
  | intWidth t => telling (intWidth? t)
  | typeOf v => telling (Operation.typeOf v)
  | nameOf v => telling (Operation.nameOf v)
  | setName v name => telling (Operation.setName v name)
  | users v => telling (Operation.users v)
  | firstUse v => telling (Operation.ask v (.firstUse v.handle) : Operation UseRef)
  | stepUse v u => telling (Operation.stepUse v u)
  | opcode i => telling (opcode? i)
  | parentBlock i => telling (Operation.parentBlock i)
  | nextInstruction i => telling (Operation.nextInstruction i)
  | terminatorSuccessors t => telling (Operation.terminatorSuccessors t)
  | isVolatile v => telling (Operation.isVolatile v)
  | setVolatile v flag => telling (Operation.setVolatile v flag)
  | iCmpPredicate c => telling (iCmpPredicate? c)
  | fCmpPredicate c => telling (fCmpPredicate? c)
  | blockRef bb => telling (Operation.blockRef bb)
  | parent bb => telling (Operation.parent bb)
  | terminator bb => telling (Operation.terminator bb)
  | successors bb => telling (Operation.successors bb)
  | predecessors bb => telling (Operation.predecessors bb)
  | next bb => telling (Operation.next bb)
  | previous bb => telling (Operation.previous bb)
  | firstInstruction bb => telling (Operation.firstInstruction bb)
  | lastInstruction bb => telling (Operation.lastInstruction bb)
  | instructions bb => telling (Operation.instructions bb)
  | moveBefore bb position => telling (Operation.moveBefore bb position)
  | moveAfter bb position => telling (Operation.moveAfter bb position)
  | insertBefore bb name => telling (Operation.insertBefore bb name)
  | delete bb => telling (Operation.delete bb)

/-- A request hands over the references to the objects that it tells of. -/
theorem operation_eq (q : Request) : q.operation = List.filterMap Item.reference? <$> q.told := by
  have h {α : Type} [Policed α] [Carries α] [Tells α] (op : Operation α) :
      handing op = List.filterMap Item.reference? <$> op.telling := by
    rw [telling, map_map]
    exact congrArg (· <$> op) (funext Tells.carries)
  cases q <;> exact h _

/-- The request with its objects and options put under a policy. -/
instance : Policed Request where
  under p
    | createContext lib options => createContext lib (under p options)
    | attachContext lib raw options => attachContext lib raw (under p options)
    | internType via h => internType (under p via) h
    | internValue via h => internValue (under p via) h
    | internBlock via b => internBlock (under p via) b
    | copy r => copy (under p r)
    | contextOf r => contextOf (under p r)
    | intWidth t => intWidth (under p t)
    | typeOf v => typeOf (under p v)
    | nameOf v => nameOf (under p v)
    | setName v name => setName (under p v) name
    | users v => users (under p v)
    | firstUse v => firstUse (under p v)
    | stepUse v u => stepUse (under p v) u
    | opcode i => opcode (under p i)
    | parentBlock i => parentBlock (under p i)
    | nextInstruction i => nextInstruction (under p i)
    | terminatorSuccessors t => terminatorSuccessors (under p t)
    | isVolatile v => isVolatile (under p v)
    | setVolatile v flag => setVolatile (under p v) flag
    | iCmpPredicate c => iCmpPredicate (under p c)
    | fCmpPredicate c => fCmpPredicate (under p c)
    | blockRef bb => blockRef (under p bb)
    | parent bb => parent (under p bb)
    | terminator bb => terminator (under p bb)
    | successors bb => successors (under p bb)
    | predecessors bb => predecessors (under p bb)
    | next bb => next (under p bb)
    | previous bb => previous (under p bb)
    | firstInstruction bb => firstInstruction (under p bb)
    | lastInstruction bb => lastInstruction (under p bb)
    | instructions bb => instructions (under p bb)
    | moveBefore bb position => moveBefore (under p bb) (under p position)
    | moveAfter bb position => moveAfter (under p bb) (under p position)
    | insertBefore bb name => insertBefore (under p bb) name
    | delete bb => delete (under p bb)

/-- Put under the tolerant policy, a request tells the same, unless it fails on an unknown value. -/
theorem follows_told (q : Request) : Follows q.told (under tolerate q).told := by
  have hvia (r : Reference) : (under tolerate r).owner = under tolerate r.owner :=
    Reference.under_owner tolerate r
  cases q with
  | createContext lib options => exact (follows_createContext lib options).telling
  | attachContext lib raw options => exact (follows_attachContext lib raw options).telling
  | internType via h =>
    show Follows _ (telling (Operation.internType (under tolerate via).owner h))
    rw [hvia]
    exact (follows_internType via.owner h).telling
  | internValue via h =>
    show Follows _ (telling (Operation.internValue (under tolerate via).owner h))
    rw [hvia]
    exact (follows_internValue via.owner h).telling
  | internBlock via b =>
    show Follows _ (telling (Operation.internBlock (under tolerate via).owner b))
    rw [hvia]
    exact (follows_internBlock via.owner b).telling
  | copy r => exact ((follows_hold r).bind fun _ => follows_pure r).telling
  | contextOf r =>
    show Follows _ (telling (do
      Operation.hold (.context (under tolerate r).owner)
      return (under tolerate r).owner))
    rw [hvia]
    exact ((follows_hold (.context r.owner)).bind fun _ => follows_pure r.owner).telling
  | intWidth t => exact (follows_intWidth? t).telling
  | typeOf v => exact (follows_typeOf v).telling
  | nameOf v => exact Follows.telling (α := String) (follows_ask v _)
  | setName v name => exact Follows.telling (α := Unit) (follows_ask v _)
  | users v => exact (follows_users v).telling
  | firstUse v => exact Follows.telling (α := UseRef) (follows_ask v _)
  | stepUse v u => exact (follows_stepUse v u).telling
  | opcode i => exact (follows_opcode? i).telling
  | parentBlock i => exact (follows_parentBlock i).telling
  | nextInstruction i => exact (follows_nextInstruction i).telling
  | terminatorSuccessors t => exact (follows_terminatorSuccessors t).telling
  | isVolatile v => exact Follows.telling (α := Bool) (follows_ask v _)
  | setVolatile v flag => exact Follows.telling (α := Unit) (follows_ask v _)
  | iCmpPredicate c => exact (follows_iCmpPredicate? c).telling
  | fCmpPredicate c => exact (follows_fCmpPredicate? c).telling
  | blockRef bb => exact (follows_blockRef bb).telling
  | parent bb => exact (follows_parent bb).telling
  | terminator bb => exact (follows_terminator bb).telling
  | successors bb => exact (follows_successors bb).telling
  | predecessors bb => exact (follows_predecessors bb).telling
  | next bb => exact (follows_next bb).telling
  | previous bb => exact (follows_previous bb).telling
  | firstInstruction bb => exact (follows_firstInstruction bb).telling
  | lastInstruction bb => exact (follows_lastInstruction bb).telling
  | instructions bb => exact (follows_instructions bb).telling
  | moveBefore bb position => exact (follows_moveBefore bb position).telling
  | moveAfter bb position => exact (follows_moveAfter bb position).telling
  | insertBefore bb name => exact (follows_insertBefore bb name).telling
  | delete bb => exact (follows_delete bb).telling

end Request

end CanonIR
