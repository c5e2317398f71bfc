import CanonIR.Memory.Library

/-!
Recorders: in-memory libraries under observation. A recorder notes every call that is made to its
library, and gives a forced answer in place of the library's to a call whose text has one. The
library answers first in either case, so what the call does to it is done.
-/

namespace CanonIR

structure Recorder where
  graph : Memory.Graph := {}
  /-- The calls made, newest first. -/
  calls : List Call := []
  /-- The numbers that stand for forced answers, by the text of the call. -/
  forced : Table String Nat := ∅
  /-- How many of the calls have been listed. -/
  callsListed : Nat := 0
  /-- How many of the probes asked have been listed. -/
  probesListed : Nat := 0

namespace Recorder

instance : Inhabited Recorder := ⟨{}⟩

/-- The answer that is forced on a call. -/
def forced? (r : Recorder) (c : Call) : Option c.Answer :=
  if r.forced.entries.isEmpty then none
  else (r.forced.get? c.text).bind (Call.answerOfNumber? · c)

/-- Makes a call. A call that traps leaves no note. -/
def perform (r : Recorder) (c : Call) : Except NativeTrap c.Answer × Recorder :=
  match r.graph.perform c with
  | (.ok a, graph) => (.ok ((r.forced? c).getD a), { r with graph, calls := c :: r.calls })
  | (.error t, graph) => (.error t, { r with graph })

/-- Without forced answers, a call is answered as the library does. -/
theorem perform_of_unforced {r : Recorder} (hf : r.forced = ∅) {c : Call} {a : c.Answer}
    {graph : Memory.Graph} (hc : r.graph.perform c = (.ok a, graph)) :
    r.perform c = (.ok a, { r with graph, calls := c :: r.calls }) := by
  have hn : r.forced? c = none := by
    rw [forced?, hf]
    rfl
  rw [perform, hc]
  simp only [hn, Option.getD_none]

/-- Forced answers can lengthen a walk by a step each. -/
def walkLimit (r : Recorder) : Nat := r.graph.allocated + r.forced.size + 1

/-! ## Observation -/

/-- All probes asked, in order. -/
def probes (r : Recorder) : List Probe :=
  r.calls.reverse.filterMap fun
    | .isA _ p => some p
    | _ => none

def probeCount (r : Recorder) : Nat :=
  r.calls.countP fun
    | .isA _ _ => true
    | _ => false

def typeKindCount (r : Recorder) : Nat :=
  r.calls.countP fun
    | .typeKind _ => true
    | _ => false

/-- How often a value was converted to its block shape. -/
def conversionCount (r : Recorder) : Nat :=
  r.calls.countP fun
    | .valueAsBlock _ => true
    | _ => false

/-- The calls made since they were last listed. -/
def takeCalls (r : Recorder) : List Call × Recorder :=
  (r.calls.reverse.drop r.callsListed, { r with callsListed := r.calls.length })

/-- The probes asked since they were last listed. -/
def takeProbes (r : Recorder) : List Probe × Recorder :=
  (r.probes.drop r.probesListed, { r with probesListed := r.probeCount })

end Recorder

/-- Recorders by library. -/
abbrev Recorders := Table LibraryId Recorder

namespace Recorders

/-- The recorder of a library, which is untouched if the library is new. -/
def recorder (rs : Recorders) (lib : LibraryId) : Recorder := (rs.get? lib).getD {}

theorem recorder_insert (rs : Recorders) (lib lib' : LibraryId) (r : Recorder) :
    recorder (rs.insert lib r) lib' = if lib' = lib then r else rs.recorder lib' := by
  rw [recorder, Table.get?_insert]
  split <;> rfl

instance : NativeSystem Recorders where
  perform lib c rs :=
    let (a, r) := (recorder rs lib).perform c
    (a, rs.insert lib r)
  walkLimit lib rs := (recorder rs lib).walkLimit

theorem perform_of_unforced {rs : Recorders} {lib : LibraryId} (hf : (rs.recorder lib).forced = ∅)
    {c : Call} {a : c.Answer} {graph : Memory.Graph}
    (hc : (rs.recorder lib).graph.perform c = (.ok a, graph)) :
    NativeSystem.perform lib c rs = (.ok a, rs.insert lib
      { rs.recorder lib with graph, calls := c :: (rs.recorder lib).calls }) := by
  have hr : NativeSystem.perform lib c rs =
      (((rs.recorder lib).perform c).1, rs.insert lib ((rs.recorder lib).perform c).2) := rfl
  rw [hr, Recorder.perform_of_unforced hf hc]

end Recorders

end CanonIR
