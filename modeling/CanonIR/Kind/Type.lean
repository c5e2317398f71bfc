/-!
Type kinds: the flat classification of types. A native library reports the kind of a type as a
number; `TypeKind.ofNumber?` reads it.
-/

namespace CanonIR

/-- The concrete kinds of types, in the order of their native numbers. -/
inductive TypeKind where
  | void
  | half
  | float
  | double
  | x86Fp80
  | fp128
  | ppcFp128
  | label
  | integer
  | function
  | struct
  | array
  | pointer
  | vector
  | metadata
  | x86Mmx
  | token
  | scalableVector
  | bFloat
  | x86Amx
  | targetExt
  deriving DecidableEq

/-- Groups of type kinds. -/
inductive TypeCategory where
  /-- Floating-point types. -/
  | real
  /-- Array, pointer and vector types. -/
  | sequential
  /-- All other types. -/
  | standalone
  deriving DecidableEq

namespace TypeCategory

def name : TypeCategory → String
  | real => "Real"
  | sequential => "Sequential"
  | standalone => "Standalone"

end TypeCategory

namespace TypeKind

/-- Every kind, in the order of the native numbers. -/
def all : List TypeKind :=
  [.void, .half, .float, .double, .x86Fp80, .fp128, .ppcFp128, .label, .integer, .function,
   .struct, .array, .pointer, .vector, .metadata, .x86Mmx, .token, .scalableVector, .bFloat,
   .x86Amx, .targetExt]

/-- The number by which a native library reports the kind. -/
def number : TypeKind → Nat
  | void => 0
  | half => 1
  | float => 2
  | double => 3
  | x86Fp80 => 4
  | fp128 => 5
  | ppcFp128 => 6
  | label => 7
  | integer => 8
  | function => 9
  | struct => 10
  | array => 11
  | pointer => 12
  | vector => 13
  | metadata => 14
  | x86Mmx => 15
  | token => 16
  | scalableVector => 17
  | bFloat => 18
  | x86Amx => 19
  | targetExt => 20

/-- The kind with a native number; nothing for a number that no kind has. -/
def ofNumber? (n : Nat) : Option TypeKind :=
  all.find? (·.number == n)

/-- The short name. -/
def name : TypeKind → String
  | void => "Void"
  | half => "Half"
  | float => "Float"
  | double => "Double"
  | x86Fp80 => "X86Fp80"
  | fp128 => "Fp128"
  | ppcFp128 => "PpcFp128"
  | label => "Label"
  | integer => "Integer"
  | function => "Function"
  | struct => "Struct"
  | array => "Array"
  | pointer => "Pointer"
  | vector => "Vector"
  | metadata => "Metadata"
  | x86Mmx => "X86Mmx"
  | token => "Token"
  | scalableVector => "ScalableVector"
  | bFloat => "BFloat"
  | x86Amx => "X86Amx"
  | targetExt => "TargetExt"

/-- The name of the class of types with this kind. -/
def className : TypeKind → String
  | void => "VoidType"
  | half => "HalfType"
  | float => "FloatType"
  | double => "DoubleType"
  | x86Fp80 => "X86FP80Type"
  | fp128 => "FP128Type"
  | ppcFp128 => "PPCFP128Type"
  | label => "LabelType"
  | integer => "IntegerType"
  | function => "FunctionType"
  | struct => "StructType"
  | array => "ArrayType"
  | pointer => "PointerType"
  | vector => "VectorType"
  | metadata => "MetadataType"
  | x86Mmx => "X86MMXType"
  | token => "TokenType"
  | scalableVector => "ScalableVectorType"
  | bFloat => "BFloatType"
  | x86Amx => "X86AMXType"
  | targetExt => "TargetExtType"

def category : TypeKind → TypeCategory
  | half | bFloat | float | double | x86Fp80 | fp128 | ppcFp128 => .real
  | array | pointer | vector | scalableVector => .sequential
  | void | label | integer | function | struct | metadata | x86Mmx | token | x86Amx
  | targetExt => .standalone

theorem mem_all (k : TypeKind) : k ∈ all := by
  cases k <;> decide

theorem number_injective {k k' : TypeKind} (h : k.number = k'.number) : k = k' := by
  revert k'
  cases k <;> intro k' h <;> cases k' <;> first | rfl | cases h

theorem ofNumber?_number (k : TypeKind) : ofNumber? k.number = some k := by
  cases k <;> rfl

theorem ofNumber?_eq_some_iff {n : Nat} {k : TypeKind} : ofNumber? n = some k ↔ k.number = n := by
  refine ⟨fun h => ?_, fun h => h ▸ ofNumber?_number k⟩
  simpa using List.find?_some h

end TypeKind

end CanonIR
