import CanonIR.Text.Hex

/-!
Handles: addresses of objects that a native library owns, one kind of handle for each kind of
object. Nothing here looks behind an address. The null handle, at address zero, denotes no object.
-/

namespace CanonIR

/-- The kinds of native objects that a handle may denote. -/
inductive HandleKind where
  | context
  | type
  /-- The value shape, which every value has. -/
  | value
  /-- The block shape, the second shape that a basic block has. -/
  | block
  /-- An entry of the list of uses of a value. -/
  | use
  deriving DecidableEq

namespace HandleKind

def all : List HandleKind := [.context, .type, .value, .block, .use]

def name : HandleKind → String
  | context => "ContextRef"
  | type => "TypeRef"
  | value => "ValueRef"
  | block => "BlockRef"
  | use => "UseRef"

def ofName? (s : String) : Option HandleKind :=
  all.find? (·.name == s)

end HandleKind

/-- The address of a native object of one kind. -/
structure Handle (k : HandleKind) where
  address : Nat
  deriving DecidableEq

abbrev ContextRef := Handle .context
abbrev TypeRef := Handle .type
abbrev ValueRef := Handle .value
abbrev BlockRef := Handle .block
abbrev UseRef := Handle .use

namespace Handle

variable {k : HandleKind}

/-- The handle of no object. -/
def null : Handle k := ⟨0⟩

instance : Inhabited (Handle k) := ⟨null⟩

def isNull (h : Handle k) : Bool := h.address == 0

theorem isNull_eq_false_iff {h : Handle k} : h.isNull = false ↔ h.address ≠ 0 := by
  unfold isNull
  exact beq_eq_false_iff_ne

/-- The handle itself, and nothing for the null handle. -/
def nonNull? (h : Handle k) : Option (Handle k) :=
  if h.isNull then none else some h

/-- Handles are ordered by their addresses. -/
instance : Ord (Handle k) := ⟨fun a b => compare a.address b.address⟩

/-- The kind and the address, such as `ValueRef(0x40)`. -/
def text (h : Handle k) : String :=
  k.name ++ "(" ++ Text.hex h.address ++ ")"

end Handle

end CanonIR
