import CanonIR.Handle
import CanonIR.Options
import CanonIR.Kind.View

/-!
The steps of a session. A session works with names: of libraries, of handles, and of slots, each of
which holds a strong reference. A step that makes something may say under which name to keep it;
what no name keeps is released at the end of the step.
-/

namespace CanonIR

/-- How a step writes an address: directly, or by the name of a handle. -/
inductive HandleTerm where
  | address (n : Nat)
  | named (name : String)
  deriving DecidableEq

namespace HandleTerm

/-- Reads `null`, a hexadecimal address, or a name. -/
def ofText (s : String) : HandleTerm :=
  if s == "null" then address 0
  else (Text.ofHex? s).elim (named s) address

end HandleTerm

/-- An argument of a call whose answer is forced: a text, or a handle of a kind. -/
inductive ForcedArgument where
  | text (s : String)
  | handle (k : HandleKind) (h : HandleTerm)
  deriving DecidableEq

/-- Steps that work on a library directly, past the binding. -/
inductive LibraryStep where
  | intType (cx : HandleTerm) (width : Nat) (into : Option String)
  | rawType (kind : Nat) (into : Option String)
  | newValue (probes : List Probe) (into : Option String)
  | constExpr (opcode : Nat) (into : Option String)
  | function (into : Option String)
  | appendBlock (function : HandleTerm) (name : String) (into : Option String)
  | blockValue (block : HandleTerm) (into : Option String)
  | instruction (block : HandleTerm) (probes : List Probe) (opcode : Opcode) (into : Option String)
  | branch (block : HandleTerm) (targets : List HandleTerm) (into : Option String)
  | addUse (used user : HandleTerm) (into : Option String)
  | rawContext (into : Option String)
  | reuseAddress (dead : HandleTerm) (probes : List Probe)
  | setType (value type : HandleTerm)
  | setPredicate (value : HandleTerm) (number : Nat)
  | valueExists (value : HandleTerm)
  | blockExists (block : HandleTerm)
  | layout (function : HandleTerm)
  | nativeName (value : HandleTerm)
  | disposed
  | counters
  | probeLog
  | calls
  | force (method : String) (arguments : List ForcedArgument) (result : HandleTerm)
  | newLibrary (into : String)
  /-- Gates new types or values, and keeps those whose position is a multiple of `keep`; none if
  that is zero. -/
  | churn (cx : String) (values : Bool) (count keep : Nat) (into : String)
  deriving DecidableEq

/-- What a gate step does if the library and the taxonomy disagree. -/
inductive OnDrift where
  | report
  | abort
  deriving DecidableEq

/-- Steps that work on contexts and wrappers. -/
inductive WrapperStep where
  /-- A new native context under a new binding. -/
  | context (lib : String) (policy : Option UnknownValues) (into : Option String)
  /-- The binding of a native context that is owned elsewhere. -/
  | attach (lib : String) (raw : HandleTerm) (policy : Option UnknownValues)
    (into : Option String)
  | info (cx : String)
  | hasType (cx : String) (h : HandleTerm)
  | hasValue (cx : String) (h : HandleTerm)
  | type (cx : String) (h : HandleTerm) (onDrift : OnDrift) (into : Option String)
  | value (cx : String) (h : HandleTerm) (onDrift : OnDrift) (into : Option String)
  | block (cx : String) (h : HandleTerm) (into : Option String)
  | race (cx : String) (h : HandleTerm) (threads : Nat)
  | clone (slot : String) (into : Option String)
  | drop (slot : String)
  | same (a b : String)
  | contextOf (slot : String) (into : Option String)
  | distinct (slots : List String)
  | handleOf (slot : String) (into : Option String)
  | typeInfo (slot : String)
  | kind (slot : String)
  | isA (slot : String) (kind : ValueKind)
  | typeOf (slot : String) (into : Option String)
  | name (slot : String)
  | setName (slot : String) (name : String)
  | users (slot : String) (into : Option String)
  | downcast (slot : String) (view : View)
  | opcode (slot : String)
  | parentBlock (slot : String) (into : Option String)
  | nextInstruction (slot : String) (into : Option String)
  | terminatorSuccessors (slot : String) (into : Option String)
  | volatile (slot : String) (set : Option Bool)
  | compare (slot : String)
  | asBlock (slot : String) (into : Option String)
  | blockRef (slot : String) (into : Option String)
  | parent (slot : String) (into : Option String)
  | terminator (slot : String) (into : Option String)
  | next (slot : String) (into : Option String)
  | previous (slot : String) (into : Option String)
  | firstInstruction (slot : String) (into : Option String)
  | lastInstruction (slot : String) (into : Option String)
  | successors (slot : String) (into : Option String)
  | predecessors (slot : String) (into : Option String)
  | instructions (slot : String) (into : Option String)
  | moveBefore (slot position : String)
  | moveAfter (slot position : String)
  | insertBefore (slot : String) (name : String) (into : Option String)
  | delete (slot : String)
  | log
  deriving DecidableEq

inductive Step where
  | library (name : String) (s : LibraryStep)
  | wrapper (s : WrapperStep)
  deriving DecidableEq

end CanonIR
