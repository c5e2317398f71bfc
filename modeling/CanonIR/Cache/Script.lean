import CanonIR.Cache.Weak
import CanonIR.Slots

/-!
Scripts over one weak cache of texts. Named slots hold the texts that the cache may return: a text
lives as long as a slot holds it, and two texts made apart are different objects even if they read
the same.
-/

namespace CanonIR.CacheScript

/-- A text with an identity of its own. -/
structure Item where
  id : Nat
  data : String
  deriving DecidableEq

/-- What `getOrInsert` does on a miss. -/
inductive Make where
  | item (data : String)
  | fail (reason : String)
  deriving DecidableEq

inductive Step where
  | new (data : String) (into : String)
  | clone (slot into : String)
  | drop (slot : String)
  | insert (key : Nat) (slot : String)
  | lookup (key : Nat) (into : Option String)
  | getOrInsert (key : Nat) (make : Make) (into : Option String)
  | forget (key : Nat)
  | contains (key : Nat)
  | liveCount
  | size
  /-- Inserts `count` new texts at addresses that follow each other, and keeps those whose position
  is a multiple of `keep`; none if that is zero. -/
  | churn (first count keep : Nat) (into : String)
  deriving DecidableEq

/-- An item that the cache returned: its text, and the slots that hold this very item. -/
structure Found where
  data : String
  same : List String
  deriving DecidableEq

inductive Answer where
  | none
  | flag (b : Bool)
  | count (n : Nat)
  | found (f : Option Found)
  | got (made : Bool) (f : Found)
  | counts (live size : Nat)
  /-- The slot that a step needs holds nothing. -/
  | unbound (slot : String)
  | makeFailed (reason : String)
  deriving DecidableEq

structure State where
  cache : WeakCache Item := {}
  slots : Slots Item := ∅
  nextId : Nat := 0

namespace State

/-- Whether a slot holds the item. -/
def alive (s : State) (i : Item) : Bool :=
  s.slots.entries.any (·.2.id == i.id)

def liveCount (s : State) : Nat := s.cache.liveCount s.alive

def describe (s : State) (i : Item) : Found :=
  ⟨i.data, s.slots.namesWhere (·.id == i.id)⟩

/-- The item that a text made now would be. -/
def nextItem (s : State) (data : String) : Item := ⟨s.nextId, data⟩

def bind (s : State) (into : Option String) (i : Option Item) : State :=
  match into with
  | some name => { s with slots := s.slots.put name i }
  | none => s

/-- Goes on with the item in a slot. -/
def withSlot (s : State) (slot : String) (go : Item → Answer × State) : Answer × State :=
  match s.slots.get? slot with
  | some i => go i
  | none => (.unbound slot, s)

/-- One round of `Step.churn`: the text is the position in the run. -/
def churnOne (first keep : Nat) (into : String) (s : State) (n : Nat) : State :=
  let i := s.nextItem (toString n)
  let s := { s with cache := s.cache.insert s.alive (first + n) i, nextId := s.nextId + 1 }
  if 0 < keep ∧ n % keep = 0 then s.bind (some (into ++ toString n)) (some i) else s

def step (s : State) : Step → Answer × State
  | .new data into =>
    (.none, { s.bind (some into) (some (s.nextItem data)) with nextId := s.nextId + 1 })
  | .clone slot into => s.withSlot slot fun i => (.none, s.bind (some into) (some i))
  | .drop slot => (.flag (s.slots.contains slot), { s with slots := s.slots.erase slot })
  | .insert key slot =>
    s.withSlot slot fun i => (.none, { s with cache := s.cache.insert s.alive key i })
  | .lookup key into =>
    let i := s.cache.lookup s.alive key
    (.found (i.map s.describe), s.bind into i)
  | .getOrInsert key make into =>
    let made := fun _ =>
      match make with
      | .item data => Except.ok (s.nextItem data)
      | .fail reason => Except.error reason
    match s.cache.getOrInsert s.alive key made with
    | (.ok (fresh, i), cache) =>
      (.got fresh (s.describe i),
        { s with cache, nextId := s.nextId + 1 }.bind into (some i))
    | (.error reason, cache) => (.makeFailed reason, { s with cache })
  | .forget key =>
    (.flag (s.cache.contains s.alive key), { s with cache := s.cache.forget key })
  | .contains key => (.flag (s.cache.contains s.alive key), s)
  | .liveCount => (.count s.liveCount, s)
  | .size => (.count s.cache.size, s)
  | .churn first count keep into =>
    let s := (List.range count).foldl (churnOne first keep into) s
    (.counts s.liveCount s.cache.size, s)

/-- The answers of the steps in order, and the state after them. -/
def run (s : State) : List Step → List Answer × State
  | [] => ([], s)
  | x :: xs =>
    let (a, s) := s.step x
    let (as, s) := s.run xs
    (a :: as, s)

end State

end CanonIR.CacheScript
