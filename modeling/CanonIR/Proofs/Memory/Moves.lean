import CanonIR.Proofs.Identity.Interleaving
import CanonIR.Proofs.Memory.Recorder

/-!
Moves over in-memory libraries. Past the bindings, a library is built up and its addresses are used
again; apart from that, operations take their steps side by side, and their users give references
up.
-/

namespace CanonIR

/-- What can happen next. -/
inductive MemoryMove where
  /-- A library is changed past the bindings. -/
  | build (lib : LibraryId) (x : Memory.Change)
  /-- A new value takes the address of a destroyed one in a library. -/
  | reuse (lib : LibraryId) (dead : ValueRef) (probes : List Probe)
  | ask (q : Request)
  | advance (i : Nat)
  | release (r : Reference)

/-- The libraries after a change of the graph of one. -/
def Recorders.change (rs : Recorders) (lib : LibraryId) (f : Memory.Graph → Memory.Graph) :
    Recorders :=
  rs.insert lib { rs.recorder lib with graph := f (rs.recorder lib).graph }

namespace Recorders

variable {rs : Recorders} {lib : LibraryId} {dead : ValueRef}

theorem grow_build (rs : Recorders) (lib : LibraryId) (x : Memory.Change) :
    rs.Grow (rs.change lib fun g => x.apply g) :=
  each_insert ⟨x.grows _, rfl⟩

theorem grow_reuse (rs : Recorders) (lib : LibraryId) (dead : ValueRef) (probes : List Probe) :
    rs.Grow (rs.change lib fun g => (g.reuseAddress dead probes).getD g) :=
  each_insert ⟨(rs.recorder lib).graph.grows_reuse dead probes, rfl⟩

theorem renew_build (rs : Recorders) (lib : LibraryId) (x : Memory.Change) :
    rs.Renew (rs.change lib fun g => x.apply g) :=
  each_insert ⟨(x.grows _).toRenews, fun hw => (x.evolves hw).wellFormed, rfl⟩

/-- An address that was handed out can be used again. -/
theorem renew_reuse (hd : (rs.recorder lib).graph.Handed dead.address) (probes : List Probe) :
    rs.Renew (rs.change lib fun g => (g.reuseAddress dead probes).getD g) :=
  each_insert ⟨((rs.recorder lib).graph.grows_reuse dead probes).toRenews,
    fun hw => hw.reuse hd probes, rfl⟩

end Recorders

namespace MemoryMove

/-- What a move is for a machine over libraries in a state. -/
def move (rs : Recorders) : MemoryMove → Machine.Move Recorders
  | build lib x => .outside (rs.change lib fun g => x.apply g)
  | reuse lib dead probes => .outside (rs.change lib fun g => (g.reuseAddress dead probes).getD g)
  | ask q => .ask q
  | advance i => .advance i
  | release r => .release r

/-- The primitive that is performed in a move. -/
def primitive? (m : Machine Recorders) : MemoryMove → Option Primitive
  | advance i => m.primitive? i
  | _ => none

/-- A request that is served in one go, by one primitive. -/
def serve (q : Request) : List MemoryMove := [.ask q, .advance 0, .advance 0]

end MemoryMove

end CanonIR
