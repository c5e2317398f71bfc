import CanonIR.Session.State

/-!
The steps that work on contexts and wrappers.
-/

namespace CanonIR.SessionM

variable {σ : Type} [NativeSystem σ]

/-! ## Contexts -/

/-- Keeps a context, and its native handle under the same name. -/
def oneContext (into : Option String) (cx : Context) : SessionM σ Answer := do
  bindHandle into cx.raw.address
  one into (some (.context cx))

/-! ## Gates -/

def gate {α : Type} (onDrift : OnDrift) (a : Operation α) : SessionM σ α :=
  match onDrift with
  | .report => attempt a
  | .abort => act a

/-- The result of an operation; a fault is no failure of the step, but gives no result. -/
def result {α : Type} (a : Operation (Option α)) : SessionM σ (Option α) := fun s =>
  let (x, world) := a.action.apply s.world
  (.ok (x.toOption.bind id), { s with world })

/-- Gates a value as often as there are threads, holding all results. The gates of a cache shut each
other out, so the order of the threads does not matter; their events are not noted. A thread whose
gate fails has no result. -/
def race (cx : Context) (h : ValueRef) (threads : Nat) : SessionM σ Answer := do
  let results ← (List.range threads).mapM fun _ => result (Operation.internValue cx h)
  collectEvents false
  let live := (← get).world.liveValues cx
  results.forM fun v => v.forM fun v => release (.value v)
  let ids := results.map (·.map (·.id))
  return .race
    { allSame := ids.all (some · == ids.head?)
      live
      text := results.findSome? fun v => v.map (·.text) }

/-! ## References -/

/-- Takes a second reference to an object. -/
def copy (r : Reference) : SessionM σ Reference := do
  act (Operation.hold r)
  return r

/-- The numbers of different types and of different values in slots, which hold no context. -/
def distinct (slots : List String) : SessionM σ Answer := do
  let ids ← slots.mapM fun slot => do
    match ← reference slot with
    | .context _ => throw (.notA .value)
    | .type t => return Sum.inl t.id
    | .value v => return Sum.inr v.id
  return .numbers [
    (ids.filterMap Sum.getLeft?).eraseDups.length,
    (ids.filterMap Sum.getRight?).eraseDups.length]

/-- Keeps the handle of an object; a block has its value shape. -/
def handleOf (into : Option String) : Reference → SessionM σ Answer
  | .context cx => oneHandle into cx.raw
  | .type t => oneHandle into t.handle
  | .value v => oneHandle into v.handle

/-! ## Values -/

def viewInfo (V : View) (v : ValueWrapper) : Option ViewInfo :=
  (v.downcast? V).map fun x =>
    { text := x.value.text
      sameValue := x.value == v
      sameCopy := x == x
      distinct := [x, x].eraseDups.length }

def volatile (v : ValueWrapper) (set : Option Bool) : SessionM σ Answer := do
  if !v.kind.isMemoryAccess then throw (.notA .memoryAccess)
  set.forM fun flag => act (Operation.setVolatile v flag)
  return .flag (← act (Operation.isVolatile v))

def comparison (v : ValueWrapper) : SessionM σ Answer := do
  let isConstant := v.kind.constExpr?.isSome
  match v.downcast? .iCmp, v.downcast? .fCmp with
  | some c, _ =>
    let number ← act (Operation.iCmpNumber c)
    let predicate ← act (Operation.iCmpPredicate? c)
    return .comparison ⟨.iCmp, number, predicate.map (·.name), isConstant⟩
  | none, some c =>
    let number ← act (Operation.fCmpNumber c)
    let predicate ← act (Operation.fCmpPredicate? c)
    return .comparison ⟨.fCmp, number, predicate.map (·.name), isConstant⟩
  | none, none => throw (.notA .comparison)

/-! ## Steps -/

def wrapperStep : WrapperStep → SessionM σ Answer
  | .context lib policy into => do
    let lib ← library lib
    oneContext into (← act (Operation.createContext lib ⟨policy.getD default⟩))
  | .attach lib raw policy into => do
    let lib ← library lib
    let raw ← handle raw
    oneContext into (← act (Operation.attachContext lib raw ⟨policy.getD default⟩))
  | .info cx => do
    let cx ← context cx
    let w := (← get).world
    return .contextInfo ⟨cx, w.liveTypes cx, w.liveValues cx, w.cacheEntries cx⟩
  | .hasType cx h => do
    let cx ← context cx
    let h ← handle h
    return .flag ((← get).world.hasType cx h)
  | .hasValue cx h => do
    let cx ← context cx
    let h ← handle h
    return .flag ((← get).world.hasValue cx h)
  | .type cx h onDrift into => do
    let cx ← context cx
    let h ← handle h
    oneType into (← gate onDrift (Operation.internType cx h))
  | .value cx h onDrift into => do
    let cx ← context cx
    let h ← handle h
    oneValue into (← gate onDrift (Operation.internValue cx h))
  | .block cx h into => do
    let cx ← context cx
    let h ← handle h
    oneView into (← act (Operation.internBlock cx h))
  | .race cx h threads => do
    let cx ← context cx
    let h ← handle h
    race cx h threads
  | .clone slot into => do one into (some (← copy (← reference slot)))
  | .drop slot => do
    let bound := (← get).slots.contains slot
    setSlot slot none
    return .flag bound
  | .same a b => do
    let a ← reference a
    let b ← reference b
    return .flag (a.id == b.id)
  | .contextOf slot into => do one into (some (← copy (.context (← reference slot).owner)))
  | .distinct slots => distinct slots
  | .handleOf slot into => do handleOf into (← reference slot)
  | .typeInfo slot => do
    let t ← type slot
    return .typeInfo ⟨t.kind, ← act (Operation.intWidth? t)⟩
  | .kind slot => do return .text (← value slot).kind.name
  | .isA slot kind => do return .flag ((← value slot).isA kind)
  | .typeOf slot into => do oneType into (← act (Operation.typeOf (← value slot)))
  | .name slot => do return .text (← act (Operation.nameOf (← value slot)))
  | .setName slot name => do
    act (Operation.setName (← value slot) name)
    return .none
  | .users slot into => do manyValues into (← act (Operation.users (← value slot)))
  | .downcast slot view => do return .view (viewInfo view (← value slot))
  | .opcode slot => do
    let o ← act (Operation.opcode? (← viewed .instruction .instruction slot))
    return .maybeText (o.map (·.name))
  | .parentBlock slot into => do
    oneView into (← act (Operation.parentBlock (← viewed .instruction .instruction slot)))
  | .nextInstruction slot into => do
    oneValue into (← act (Operation.nextInstruction (← viewed .instruction .instruction slot)))
  | .terminatorSuccessors slot into => do
    manyBlocks into (← act (Operation.terminatorSuccessors (← viewed .terminator .terminator slot)))
  | .volatile slot set => do volatile (← value slot) set
  | .compare slot => do comparison (← value slot)
  | .asBlock slot into => do one into (some (← copy (.value (← basicBlock slot).value)))
  | .blockRef slot into => do oneHandle into (← act (Operation.blockRef (← basicBlock slot)))
  | .parent slot into => do oneValue into (← act (Operation.parent (← basicBlock slot)))
  | .terminator slot into => do oneView into (← act (Operation.terminator (← basicBlock slot)))
  | .next slot into => do oneView into (← act (Operation.next (← basicBlock slot)))
  | .previous slot into => do oneView into (← act (Operation.previous (← basicBlock slot)))
  | .firstInstruction slot into => do
    oneValue into (← act (Operation.firstInstruction (← basicBlock slot)))
  | .lastInstruction slot into => do
    oneValue into (← act (Operation.lastInstruction (← basicBlock slot)))
  | .successors slot into => do manyBlocks into (← act (Operation.successors (← basicBlock slot)))
  | .predecessors slot into => do manyBlocks into (← act (Operation.predecessors (← basicBlock slot)))
  | .instructions slot into => do manyValues into (← act (Operation.instructions (← basicBlock slot)))
  | .moveBefore slot position => do
    let bb ← basicBlock slot
    act (Operation.moveBefore bb (← basicBlock position))
    return .none
  | .moveAfter slot position => do
    let bb ← basicBlock slot
    act (Operation.moveAfter bb (← basicBlock position))
    return .none
  | .insertBefore slot name into => do
    oneView into (← act (Operation.insertBefore (← basicBlock slot) name))
  | .delete slot => do
    act (Operation.delete (← basicBlock slot))
    setSlot slot none
    return .none
  | .log => modifyGet fun s => (.events s.noted.toList, { s with noted := #[] })

end CanonIR.SessionM
