import CanonIR.Binding.Blocks
import CanonIR.Session.Answer
import CanonIR.Session.Step
import CanonIR.Slots

/-!
The state of a session, and what all its steps share: looking names up, describing what a step
returns, and keeping or releasing it.
-/

namespace CanonIR

structure Session (σ : Type) where
  world : World σ
  libraries : Table String LibraryId := Table.insert ∅ "main" ⟨0⟩
  /-- The number of libraries that were made. -/
  libraryCount : Nat := 1
  /-- Addresses by name. -/
  handles : Table String Nat := ∅
  /-- Strong references by name. -/
  slots : Slots Reference := ∅
  /-- Whether events are noted for the step that lists them. -/
  noting : Bool := true
  /-- The events noted since they were last listed. -/
  noted : Array Event := #[]
  /-- All events. -/
  past : Array Event := #[]

/-- Computations on a session that may fail. -/
abbrev SessionM (σ : Type) := ExceptT Failure (StateM (Session σ))

namespace SessionM

variable {σ : Type}

/-! ## Operations and events -/

variable [NativeSystem σ]

/-- Runs an operation of the binding; `fail` says what its faults amount to. -/
def run {α : Type} (fail : Fault → Failure) (a : Operation α) : SessionM σ α := fun s =>
  let (x, world) := a.action.apply s.world
  (x.mapError fail, { s with world })

/-- Runs an operation whose faults abort the step. -/
def act {α : Type} (a : Operation α) : SessionM σ α := run (fun f => .aborted f.message) a

/-- Runs an operation of which a disagreement between library and taxonomy is reported. -/
def attempt {α : Type} (a : Operation α) : SessionM σ α :=
  run (fun
    | .drift e => .drift e
    | f => .aborted f.message) a

omit [NativeSystem σ]

/-- Moves the new events to the past ones, and notes them if that is wanted. -/
def collectEvents (wanted : Bool) : SessionM σ Unit := modify fun s =>
  let new := s.world.events
  { s with
    world := { s.world with events := #[] }
    past := s.past ++ new
    noted := if wanted && s.noting then s.noted ++ new else s.noted }

/-! ## Names -/

def library (name : String) : SessionM σ LibraryId := do
  match (← get).libraries.get? name with
  | some lib => return lib
  | none => throw (.unbound name)

def address : HandleTerm → SessionM σ Nat
  | .address n => return n
  | .named name => do
    match (← get).handles.get? name with
    | some n => return n
    | none => throw (.unbound name)

def handle {k : HandleKind} (h : HandleTerm) : SessionM σ (Handle k) := do
  return ⟨← address h⟩

def reference (slot : String) : SessionM σ Reference := do
  match (← get).slots.get? slot with
  | some r => return r
  | none => throw (.unbound slot)

def context (slot : String) : SessionM σ Context := do
  match ← reference slot with
  | .context cx => return cx
  | _ => throw (.notA .context)

def type (slot : String) : SessionM σ TypeWrapper := do
  match ← reference slot with
  | .type t => return t
  | _ => throw (.notA .type)

def value (slot : String) : SessionM σ ValueWrapper := do
  match ← reference slot with
  | .value v => return v
  | _ => throw (.notA .value)

/-- The value in a slot under a view, which stands for the wanted class. -/
def viewed (V : View) (wanted : SlotClass) (slot : String) : SessionM σ (Viewed V) := do
  match (← value slot).downcast? V with
  | some x => return x
  | none => throw (.notA wanted)

def basicBlock (slot : String) : SessionM σ BasicBlock := do
  match ← reference slot with
  | .value v =>
    match v.downcast? .basicBlock with
    | some bb => return bb
    | none => throw (.notA .basicBlock)
  | _ => throw (.notA .basicBlock)

/-! ## Results -/

def release (r : Reference) : SessionM σ Unit := act (Operation.release r)

/-- Keeps a reference in a slot, or empties the slot; what the slot held is released. -/
def setSlot (name : String) (r : Option Reference) : SessionM σ Unit := do
  let old := (← get).slots.get? name
  modify fun s => { s with slots := s.slots.put name r }
  old.forM release

/-- Keeps a reference where the step says, or releases it. -/
def keep (into : Option String) (r : Option Reference) : SessionM σ Unit :=
  match into with
  | some name => setSlot name r
  | none => r.forM release

def describe (r : Reference) : SessionM σ Description := do
  return ⟨r.text, (← get).slots.namesWhere (·.id == r.id)⟩

/-- The description of a result, which is then kept or released. -/
def one (into : Option String) (r : Option Reference) : SessionM σ Answer := do
  let d ← r.mapM describe
  keep into r
  return .one d

/-- The descriptions of several results, which are then kept under numbered names, or released. -/
def many (into : Option String) (rs : List Reference) : SessionM σ Answer := do
  let ds ← rs.mapM describe
  rs.zipIdx.forM fun (r, i) => keep (into.map (· ++ toString i)) (some r)
  return .many ds

def oneType (into : Option String) (t : Option TypeWrapper) : SessionM σ Answer :=
  one into (t.map .type)

def oneValue (into : Option String) (v : Option ValueWrapper) : SessionM σ Answer :=
  one into (v.map .value)

def oneView {V : View} (into : Option String) (x : Option (Viewed V)) : SessionM σ Answer :=
  oneValue into (x.map (·.value))

def manyValues (into : Option String) (vs : List ValueWrapper) : SessionM σ Answer :=
  many into (vs.map .value)

def manyBlocks (into : Option String) (bs : List BasicBlock) : SessionM σ Answer :=
  manyValues into (bs.map (·.value))

def bindHandle (into : Option String) (address : Nat) : SessionM σ Unit :=
  modify fun s => { s with handles := into.elim s.handles (s.handles.insert · address) }

/-- The text of a handle, which is then kept. -/
def oneHandle {k : HandleKind} (into : Option String) (h : Handle k) : SessionM σ Answer := do
  bindHandle into h.address
  return .text h.text

end SessionM

end CanonIR
