import CanonIR.Table

/-!
Named slots, each holding one thing. Slots are listed by name, in the order of code points.
-/

namespace CanonIR

abbrev Slots (α : Type) := Table String α

namespace Slots

variable {α : Type}

/-- The names of the slots whose content passes a test, in ascending order. -/
def namesWhere (s : Slots α) (p : α → Bool) : List String :=
  ((s.entries.filter fun e => p e.2).map Prod.fst).mergeSort fun a b => a ≤ b

/-- The names of all slots, in ascending order. -/
def names (s : Slots α) : List String := s.namesWhere fun _ => true

/-- Puts a thing into a slot; nothing empties it. -/
def put (s : Slots α) (name : String) : Option α → Slots α
  | some a => Table.insert s name a
  | none => Table.erase s name

end Slots

end CanonIR
