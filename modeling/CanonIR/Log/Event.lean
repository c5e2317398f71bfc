import CanonIR.Handle
import CanonIR.Options
import CanonIR.Kind.Value
import CanonIR.Kind.Type

/-!
Log events: what a binding reports of its work, with the level and the target of each report.
-/

namespace CanonIR

/-- Levels of reports, the gravest first. -/
inductive Level where
  | error
  | warn
  | info
  | debug
  | trace
  deriving DecidableEq

namespace Level

def all : List Level := [error, warn, info, debug, trace]

def name : Level → String
  | error => "ERROR"
  | warn => "WARN"
  | info => "INFO"
  | debug => "DEBUG"
  | trace => "TRACE"

/-- The place in the order from grave to detailed. -/
def detail : Level → Nat
  | error => 1
  | warn => 2
  | info => 3
  | debug => 4
  | trace => 5

end Level

/-- A labelled detail of an event. -/
structure EventField where
  label : String
  text : String
  /-- Whether the text is put in double quotes where it is printed. -/
  quoted : Bool := false
  deriving DecidableEq

inductive Event where
  | createdContext (raw : ContextRef) (policy : UnknownValues)
  | attachedContext (raw : ContextRef) (policy : UnknownValues)
  | reusedBinding (raw : ContextRef)
  | disposingContext (raw : ContextRef)
  | internedType (handle : TypeRef) (kind : TypeKind)
  | internedValue (handle : ValueRef) (kind : ValueKind)
  | forgotValue (handle : ValueRef)
  /-- The walk down the class hierarchy ended at a class. -/
  | chainSettled (value : ValueRef) (probe : Probe)
  | unknownValue (value : ValueRef)
  | convertedBlock (value : ValueRef) (block : BlockRef)
  | deletingBlock (value : ValueRef) (block : BlockRef)
  deriving DecidableEq

namespace Event

def level : Event → Level
  | createdContext .. | attachedContext .. | disposingContext .. => .debug
  | unknownValue .. => .warn
  | reusedBinding .. | internedType .. | internedValue .. | forgotValue .. | chainSettled ..
  | convertedBlock .. | deletingBlock .. => .trace

/-- The part of the binding that reports. -/
def target : Event → String
  | createdContext .. | attachedContext .. | reusedBinding .. | disposingContext ..
  | internedType .. | internedValue .. | forgotValue .. => "irbind::context"
  | chainSettled .. | unknownValue .. => "irbind::classify"
  | convertedBlock .. | deletingBlock .. => "irbind::block"

def message : Event → String
  | createdContext .. => "created native context"
  | attachedContext .. => "attached native context"
  | reusedBinding .. => "reusing live binding"
  | disposingContext .. => "disposing native context"
  | internedType .. => "interned type"
  | internedValue .. => "interned value"
  | forgotValue .. => "forgot destroyed value"
  | chainSettled .. => "predicate chain settled"
  | unknownValue .. => "value matches no known class; wrapping as bare Value"
  | convertedBlock .. => "converted block handle"
  | deletingBlock .. => "deleting block"

def fields : Event → List EventField
  | createdContext raw policy | attachedContext raw policy =>
    [⟨"raw", raw.text, false⟩, ⟨"policy", policy.display, false⟩]
  | reusedBinding raw | disposingContext raw => [⟨"raw", raw.text, false⟩]
  | internedType h k => [⟨"handle", h.text, false⟩, ⟨"kind", k.className, false⟩]
  | internedValue h k => [⟨"handle", h.text, false⟩, ⟨"kind", k.display, false⟩]
  | forgotValue h => [⟨"handle", h.text, false⟩]
  | chainSettled v p => [⟨"value", v.text, false⟩, ⟨"class", p.className, true⟩]
  | unknownValue v => [⟨"value", v.text, false⟩]
  | convertedBlock v b | deletingBlock v b =>
    [⟨"value", v.text, false⟩, ⟨"block", b.text, false⟩]

/-- Whether the event has a field of that label. Every event has its message. -/
def hasField (e : Event) (label : String) : Bool :=
  label == "message" || e.fields.any (·.label == label)

/-- The event as a printed line: level, target, message, fields. -/
def line (e : Event) : String :=
  e.level.name ++ " " ++ e.target ++ ": " ++ e.message ++ String.join (e.fields.map field)
where
  field (f : EventField) : String :=
    let quote := if f.quoted then "\"" else ""
    " " ++ f.label ++ "=" ++ quote ++ f.text ++ quote

end Event

end CanonIR
