import CanonIR.Native.Recorder
import CanonIR.Session.State

/-!
The steps that work on a library past the binding: building its graph, observing it, forcing its
answers, and making series of objects that are gated at once.
-/

namespace CanonIR.SessionM

/-- Changes the recorder of a library. -/
def onRecorder {α : Type} (lib : LibraryId) (f : Recorder → α × Recorder) : SessionM Recorders α :=
  modifyGet fun s =>
    let (a, r) := f (Recorders.recorder s.world.native lib)
    (a, { s with world := { s.world with native := s.world.native.insert lib r } })

def recorder (lib : LibraryId) : SessionM Recorders Recorder := do
  return Recorders.recorder (← get).world.native lib

def graph (lib : LibraryId) : SessionM Recorders Memory.Graph := do
  return (← recorder lib).graph

/-- Changes the graph of a library. -/
def onGraph {α : Type} (lib : LibraryId) (f : Memory.Graph → α × Memory.Graph) :
    SessionM Recorders α :=
  onRecorder lib fun r =>
    let (a, graph) := f r.graph
    (a, { r with graph })

/-- Makes an object in the graph of a library, and keeps its handle. -/
def build {k : HandleKind} (lib : LibraryId) (into : Option String)
    (f : Memory.Graph → Handle k × Memory.Graph) : SessionM Recorders Answer := do
  oneHandle into (← onGraph lib f)

def change (lib : LibraryId) (f : Memory.Graph → Memory.Graph) : SessionM Recorders Answer := do
  onGraph lib fun g => ((), f g)
  return .none

def forcedArgument : ForcedArgument → SessionM Recorders String
  | .text s => return s
  | .handle k h => do return (⟨← address h⟩ : Handle k).text

/-! ## Series -/

/-- One round of a series: gates a new object, of the kind with the number of the round modulo their
count, or a new value, and keeps or releases the wrapper. -/
def churnOne (lib : LibraryId) (cx : Context) (values : Bool) (keep : Nat) (into : String)
    (n : Nat) : SessionM Recorders Unit := do
  let r ← if values then do
      let h ← onGraph lib (·.value [.argument])
      pure ((← act (Operation.internValue cx h)).map Reference.value)
    else do
      let h ← onGraph lib (·.newType ⟨n % TypeKind.all.length, 0⟩)
      pure ((← act (Operation.internType cx h)).map Reference.type)
  SessionM.keep (if 0 < keep ∧ n % keep = 0 then some (into ++ toString n) else none) r

def churn (lib : LibraryId) (cx : Context) (values : Bool) (count keep : Nat) (into : String) :
    SessionM Recorders Answer := do
  (List.range count).forM (churnOne lib cx values keep into)
  let w := (← get).world
  return .numbers [w.liveTypes cx, w.liveValues cx, w.cacheEntries cx]

/-! ## Steps -/

def libraryStep (lib : LibraryId) : LibraryStep → SessionM Recorders Answer
  | .intType cx width into => do
    let cx ← handle cx
    build lib into (·.intType cx width)
  | .rawType kind into => build lib into (·.newType ⟨kind, 0⟩)
  | .newValue probes into => build lib into (·.value probes)
  | .constExpr opcode into => build lib into (·.constExpr opcode)
  | .function into => build lib into (·.function)
  | .appendBlock f name into => do
    let f ← handle f
    build lib into (·.appendBlock f name)
  | .blockValue b into => do
    let b ← handle b
    oneHandle into ((← graph lib).blockValue b)
  | .instruction b probes opcode into => do
    let b ← handle b
    build lib into (·.instruction b probes opcode)
  | .branch b targets into => do
    let targets ← targets.mapM handle
    let b ← handle b
    build lib into (·.branch b targets)
  | .addUse used user into => do
    let used ← handle used
    let user ← handle user
    build lib into (·.addUse used user)
  | .rawContext into => build lib into (·.newContext)
  | .reuseAddress dead probes => do
    let dead ← handle dead
    match (← graph lib).reuseAddress dead probes with
    | some g => change lib fun _ => g
    | none => throw (.aborted (dead.text ++ " is still live"))
  | .setType v ty => do
    let v ← handle v
    let ty ← handle ty
    change lib (·.setType v ty)
  | .setPredicate v n => do
    let v ← handle v
    change lib (·.setPredicate v n)
  | .valueExists v => do
    let v ← handle v
    return .flag ((← graph lib).values.contains v)
  | .blockExists b => do
    let b ← handle b
    return .flag ((← graph lib).blocks.contains b)
  | .layout f => do
    let f ← handle f
    return .texts (((← graph lib).layout f).map (·.text))
  | .nativeName v => do
    let v ← handle v
    return .text ((← graph lib).ofValue v "" (·.name))
  | .disposed => return .texts ((← graph lib).disposed.map (·.text))
  | .counters => do
    let r ← recorder lib
    return .numbers [r.probeCount, r.typeKindCount, r.conversionCount]
  | .probeLog => return .texts ((← onRecorder lib (·.takeProbes)).map (·.name))
  | .calls => return .texts ((← onRecorder lib (·.takeCalls)).map (·.text))
  | .force method arguments result => do
    let key := Call.applied method (← arguments.mapM forcedArgument)
    let n ← address result
    onRecorder lib fun r => ((), { r with forced := r.forced.insert key n })
    return .none
  | .newLibrary into => do
    modify fun s =>
      { s with
        libraries := s.libraries.insert into ⟨s.libraryCount⟩
        libraryCount := s.libraryCount + 1 }
    return .none
  | .churn cx values count keep into => do
    churn lib (← context cx) values count keep into

end CanonIR.SessionM
