import CanonIR.Text.Blank

/-!
The options of a context. The one option says what happens to a value that belongs to no class at
the top of the hierarchy; its setting can be read from text.
-/

namespace CanonIR

/-- What to do with a value that belongs to no known class. -/
inductive UnknownValues where
  /-- Fail. -/
  | reject
  /-- Give it the kind at the root of the hierarchy. -/
  | tolerate
  deriving DecidableEq

namespace UnknownValues

instance : Inhabited UnknownValues := ⟨reject⟩

/-- The policy that a setting asks for: no setting, a blank one and `0` reject, all others tolerate.
Blank characters around a setting do not count. -/
def ofSetting : Option String → UnknownValues
  | none => reject
  | some s =>
    match Text.trim s.toList with
    | [] => reject
    | ['0'] => reject
    | _ => tolerate

def name : UnknownValues → String
  | reject => "Reject"
  | tolerate => "Tolerate"

def display : UnknownValues → String
  | reject => "reject"
  | tolerate => "tolerate"

end UnknownValues

structure ContextOptions where
  unknownValues : UnknownValues := .reject
  deriving DecidableEq

namespace ContextOptions

instance : Inhabited ContextOptions := ⟨{}⟩

/-- The options that a setting asks for. -/
def ofSetting (s : Option String) : ContextOptions :=
  ⟨.ofSetting s⟩

/-- The options that a setting given as bytes asks for; bytes that are no text count as no setting.
-/
def ofSettingBytes (bytes : ByteArray) : ContextOptions :=
  ofSetting (String.fromUTF8? bytes)

def text (o : ContextOptions) : String :=
  "ContextOptions \x7b unknown_values: " ++ o.unknownValues.name ++ " \x7d"

end ContextOptions

end CanonIR
