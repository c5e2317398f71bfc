/-!
Comparison predicates, with the numbers by which a native library reports them.
-/

namespace CanonIR

/-- Predicates of integer comparisons: equality, then the unsigned and the signed orders. -/
inductive IntPredicate where
  | eq
  | ne
  | ugt
  | uge
  | ult
  | ule
  | sgt
  | sge
  | slt
  | sle
  deriving DecidableEq

namespace IntPredicate

/-- Every predicate, in the order of the native numbers. -/
def all : List IntPredicate := [eq, ne, ugt, uge, ult, ule, sgt, sge, slt, sle]

/-- The native number of the first predicate. -/
def firstNumber : Nat := 32

/-- The predicate with a native number; nothing for a number that no predicate has. -/
def ofNumber? (n : Nat) : Option IntPredicate :=
  if n < firstNumber then none else all[n - firstNumber]?

def name : IntPredicate → String
  | eq => "Eq"
  | ne => "Ne"
  | ugt => "Ugt"
  | uge => "Uge"
  | ult => "Ult"
  | ule => "Ule"
  | sgt => "Sgt"
  | sge => "Sge"
  | slt => "Slt"
  | sle => "Sle"

end IntPredicate

/-- Predicates of floating-point comparisons: ordered ones are false and unordered ones are true of
an operand that is no number. -/
inductive RealPredicate where
  | never
  | oeq
  | ogt
  | oge
  | olt
  | ole
  | one
  | ord
  | uno
  | ueq
  | ugt
  | uge
  | ult
  | ule
  | une
  | always
  deriving DecidableEq

namespace RealPredicate

/-- Every predicate, in the order of the native numbers, which start at zero. -/
def all : List RealPredicate :=
  [never, oeq, ogt, oge, olt, ole, one, ord, uno, ueq, ugt, uge, ult, ule, une, always]

/-- The predicate with a native number; nothing for a number that no predicate has. -/
def ofNumber? (n : Nat) : Option RealPredicate := all[n]?

def name : RealPredicate → String
  | never => "False"
  | oeq => "Oeq"
  | ogt => "Ogt"
  | oge => "Oge"
  | olt => "Olt"
  | ole => "Ole"
  | one => "One"
  | ord => "Ord"
  | uno => "Uno"
  | ueq => "Ueq"
  | ugt => "Ugt"
  | uge => "Uge"
  | ult => "Ult"
  | ule => "Ule"
  | une => "Une"
  | always => "True"

end RealPredicate

end CanonIR
