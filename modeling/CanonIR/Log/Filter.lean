import CanonIR.Log.Event
import CanonIR.Text.Blank

/-!
Log filters: lists of directives, each of which sets the most detailed level that is printed for the
targets that begin with a text. Of the directives that apply to an event the one with the longest
text decides.
-/

namespace CanonIR

/-- The most detailed level to print; nothing prints none. -/
structure LevelLimit where
  level? : Option Level
  deriving DecidableEq

namespace LevelLimit

def admits (l : LevelLimit) (level : Level) : Bool :=
  l.level?.any (level.detail ≤ ·.detail)

/-- Reads a number in decimal digits, with or without a plus sign. -/
def ofDigits? (cs : List Char) : Option Nat :=
  let digits := if cs.head? = some '+' then cs.tail else cs
  if !digits.isEmpty && digits.all Char.isDigit then some (Nat.ofDigitChars 10 digits 0) else none

/-- A limit is written as the name of a level, `off`, or the level's place in their order; case does
not count. -/
def ofText? (s : String) : Option LevelLimit :=
  let number := ofDigits? s.toList
  let written := fun (name : String) (place : Nat) => s.toUpper == name || number == some place
  if written "OFF" 0 then some ⟨none⟩
  else (Level.all.find? fun l => written l.name l.detail).map fun l => ⟨some l⟩

/-- A limit after an equals sign; nothing after it admits every level. -/
def ofRest? (cs : List Char) : Option LevelLimit :=
  if cs.isEmpty then some ⟨some .trace⟩ else ofText? (String.ofList cs)

end LevelLimit

/-- A limit for the events whose target begins with a text, and that have the field if one is
named. -/
structure Directive where
  target : String := ""
  field : Option String := none
  limit : LevelLimit
  deriving DecidableEq

namespace Directive

/-- The characters with which a directive begins. Letters past ASCII are left out: no event has a
target that begins with one. -/
def isFirst (c : Char) : Bool := c.isAlphanum || c ∈ ['[', '-', ':', '_']

/-- Reads what follows an opening bracket: a field between braces and the closing bracket. Returns
the field and the rest. A bracket that names a span, if only by blanks, or asks for the value of a
field, is about no event. -/
def ofBracket? (cs : List Char) : Option (String × List Char) :=
  match cs with
  | '\x7b' :: inner =>
    match inner.span (· != '\x7d') with
    | (field, '\x7d' :: ']' :: rest) =>
      if field.isEmpty || field.contains '=' then none else some (String.ofList field, rest)
    | _ => none
  | _ => none

/-- Reads the limit after a bracket. Nothing there, or blanks alone, admits every level. -/
def limitAfterBracket? (cs : List Char) : Option LevelLimit :=
  match cs with
  | '=' :: level => LevelLimit.ofRest? level
  | blanks => if blanks.all Text.isBlank then some ⟨some .trace⟩ else none

/-- Reads `level`, `target` or `target=level`; after the target a bracket may name a field. A target
without a level admits every level. -/
def ofText? (s : String) : Option Directive :=
  if !s.toList.head?.any isFirst then none
  else match s.toList.span fun c => c != '=' && c != '[' with
  | (_, []) =>
    match LevelLimit.ofText? s with
    | some limit => some { limit }
    | none => some { target := s, limit := ⟨some .trace⟩ }
  | (target, '=' :: level) =>
    (LevelLimit.ofRest? level).map fun limit => { target := String.ofList target, limit }
  | (target, _ :: inner) => do
    let (field, rest) ← ofBracket? inner
    let limit ← limitAfterBracket? rest
    return { target := String.ofList target, field := some field, limit }

def appliesTo (d : Directive) (e : Event) : Bool :=
  d.target.isPrefixOf e.target && d.field.all e.hasField

/-- Whether a directive decides where another one, written before it, applies too: it has the longer
target, or the same target and no lesser field. No field is less than any. -/
def overrides (d b : Directive) : Bool :=
  b.target.length < d.target.length ||
    (b.target.length == d.target.length && b.field.getD "" ≤ d.field.getD "")

end Directive

/-- The directives, in the order in which they were written. -/
structure Filter where
  directives : List Directive
  deriving DecidableEq

namespace Filter

/-- Reads directives between commas, without those that cannot be read. If none is left, errors are
printed. -/
def ofText (s : String) : Filter :=
  match ((s.splitOn ",").filter (· != "")).filterMap Directive.ofText? with
  | [] => ⟨[{ limit := ⟨some .error⟩ }]⟩
  | ds => ⟨ds⟩

/-- The directive that decides, of the one that decided so far and a later one. -/
def decisive (best : Option Directive) (d : Directive) : Option Directive :=
  match best with
  | some b => if d.overrides b then some d else some b
  | none => some d

/-- The directive that decides about an event. -/
def directive? (f : Filter) (e : Event) : Option Directive :=
  (f.directives.filter (·.appliesTo e)).foldl decisive none

def admits (f : Filter) (e : Event) : Bool :=
  (f.directive? e).any (·.limit.admits e.level)

end Filter

/-- The lines that are printed of events under a setting; without a setting nothing is printed. -/
def printedLines (setting : Option String) (events : List Event) : List String :=
  match setting with
  | none => []
  | some s => (events.filter (Filter.ofText s).admits).map (·.line)

end CanonIR
