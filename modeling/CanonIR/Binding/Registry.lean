import CanonIR.Binding.Object
import CanonIR.Table

/-!
The registry: for each native context the binding that was made for it last. The registry keeps no
binding alive, so a binding found in it may be dead.
-/

namespace CanonIR

abbrev Registry := Table (LibraryId × ContextRef) Context

namespace Registry

/-- The living binding of a native context. -/
def living? (r : Registry) (alive : Context → Bool) (key : LibraryId × ContextRef) :
    Option Context :=
  (r.get? key).filter alive

/-- Enters a binding for its native context, in place of an earlier one. -/
def enter (r : Registry) (cx : Context) : Registry := r.insert cx.key cx

/-- Takes a binding out, unless another one has taken its place. -/
def retire (r : Registry) (cx : Context) : Registry :=
  if (r.get? cx.key).any (·.id == cx.id) then r.erase cx.key else r

end Registry

end CanonIR
