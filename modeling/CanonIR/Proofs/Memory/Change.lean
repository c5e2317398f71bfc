import CanonIR.Proofs.Memory.WellFormed

/-!
Changes of a graph past the bindings, as data: new objects and new links between them. They delete
nothing, and whatever they build is well formed.
-/

namespace CanonIR.Memory

inductive Change where
  | newContext
  | newType (entry : TypeEntry)
  | intType (cx : ContextRef) (width : Nat)
  | newValue (entry : ValueEntry)
  | function
  | setType (v : ValueRef) (ty : TypeRef)
  | setPredicate (v : ValueRef) (n : Nat)
  | addUse (used user : ValueRef)
  | appendBlock (f : ValueRef) (name : String)
  | instruction (b : BlockRef) (probes : List Probe) (opcode : Opcode)
  | branch (b : BlockRef) (targets : List BlockRef)

namespace Change

def apply (g : Graph) : Change → Graph
  | newContext => g.newContext.2
  | newType entry => (g.newType entry).2
  | intType cx width => (g.intType cx width).2
  | newValue entry => (g.newValue entry).2
  | function => g.function.2
  | setType v ty => g.setType v ty
  | setPredicate v n => g.setPredicate v n
  | addUse used user => (g.addUse used user).2
  | appendBlock f name => (g.appendBlock f name).2
  | instruction b probes opcode => (g.instruction b probes opcode).2
  | branch b targets => (g.branch b targets).2

open Memory.Graph

theorem evolves {g : Graph} (h : g.WellFormed) (x : Change) : g.Evolves (x.apply g) := by
  cases x with
  | newContext => exact evolves_newContext h
  | newType entry => exact evolves_newType h entry
  | intType cx width => exact evolves_intType h cx width
  | newValue entry => exact evolves_newValue h entry
  | function => exact evolves_function h
  | setType v ty => exact evolves_modifyValue h v fun _ => ⟨rfl, rfl, rfl⟩
  | setPredicate v n => exact evolves_modifyValue h v fun _ => ⟨rfl, rfl, rfl⟩
  | addUse used user => exact evolves_addUse h used user
  | appendBlock f name => exact evolves_appendBlock h f name
  | instruction b probes opcode => exact evolves_instruction h b probes opcode
  | branch b targets => exact evolves_branch h b targets

theorem wellFormed_foldl {g : Graph} (h : g.WellFormed) (xs : List Change) :
    (xs.foldl apply g).WellFormed := by
  induction xs generalizing g with
  | nil => exact h
  | cons x xs ih => exact ih (evolves h x).wellFormed

end Change

/-- The graph that changes build up from nothing. -/
def Graph.ofChanges (xs : List Change) : Graph := xs.foldl Change.apply {}

theorem Graph.wellFormed_ofChanges (xs : List Change) : (ofChanges xs).WellFormed :=
  Change.wellFormed_foldl wellFormed_empty xs

end CanonIR.Memory
