import CanonIR.Log.Filter
import CanonIR.Session.Library
import CanonIR.Session.Wrapper

/-!
Running sessions: the answers to the steps in order, the release of all slots at the end, and what
the libraries have disposed then.
-/

namespace CanonIR.Session

def stepM : Step → SessionM Recorders Answer
  | .library name s => do SessionM.libraryStep (← SessionM.library name) s
  | .wrapper s => SessionM.wrapperStep s

/-- Takes a step; a failure is its answer. -/
def step (s : Session Recorders) (x : Step) : Answer × Session Recorders :=
  match (do
    let a ← stepM x
    SessionM.collectEvents true
    return a : SessionM Recorders Answer) s with
  | (.ok a, s) => (a, s)
  | (.error f, s) => (.failure f, (SessionM.collectEvents true s).2)

/-- The answers to the steps in order, and the state after them. -/
def run (s : Session Recorders) : List Step → List Answer × Session Recorders
  | [] => ([], s)
  | x :: xs =>
    let (a, s) := s.step x
    let (as, s) := s.run xs
    (a :: as, s)

/-- Releases all slots, in ascending order of their names. -/
def finish (s : Session Recorders) : Session Recorders :=
  let release := fun name => do
    SessionM.setSlot name none
    SessionM.collectEvents true
  ((s.slots.names.forM release : SessionM Recorders Unit) s).2

/-- The disposed contexts of each library, by name. -/
def disposed (s : Session Recorders) : List (String × List ContextRef) :=
  s.libraries.entries.map fun (name, lib) =>
    (name, (Recorders.recorder s.world.native lib).graph.disposed)

/-- What came of a session. -/
structure Report where
  answers : List Answer
  disposed : List (String × List ContextRef)
  /-- All events, those at the final release of the slots included. -/
  events : List Event

/-- Runs a session from its start; the flag says whether events are noted for the steps that list
them. -/
def report (noting : Bool) (steps : List Step) : Report :=
  let start : Session Recorders := { world := { native := ∅ }, noting }
  let (answers, s) := start.run steps
  let s := s.finish
  { answers, disposed := s.disposed, events := s.past.toList }

end CanonIR.Session
