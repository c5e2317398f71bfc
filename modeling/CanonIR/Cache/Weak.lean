import CanonIR.Table

/-!
Weak caches: objects under addresses, without a claim on their lifetime. What is alive is said from
outside, by the predicate `alive` that each operation takes: an entry whose object is dead counts as
absent, but for the number of entries. An insertion into a cache that has grown to its threshold
first sweeps the dead entries out and sets the threshold to twice the number of survivors.
-/

namespace CanonIR

structure WeakCache (α : Type) where
  entries : Table Nat α := ∅
  /-- The number of entries at which the next insertion sweeps. -/
  sweepAt : Nat := 256

namespace WeakCache

variable {α : Type}

/-- The least threshold. -/
def minSweepAt : Nat := 256

instance : Inhabited (WeakCache α) := ⟨{}⟩

/-- The living object under an address. -/
def lookup (c : WeakCache α) (alive : α → Bool) (key : Nat) : Option α :=
  (c.entries.get? key).filter alive

/-- The cache without its dead entries, and with the threshold that follows from the others. -/
def sweep (c : WeakCache α) (alive : α → Bool) : WeakCache α :=
  let survivors := c.entries.filter fun _ a => alive a
  { entries := survivors, sweepAt := max minSweepAt (2 * survivors.size) }

/-- Whether the next insertion sweeps. -/
def sweepDue (c : WeakCache α) : Bool := c.sweepAt ≤ c.entries.size

/-- Puts an object under an address, sweeping first if that is due. -/
def insert (c : WeakCache α) (alive : α → Bool) (key : Nat) (a : α) : WeakCache α :=
  let c := if c.sweepDue then c.sweep alive else c
  { c with entries := c.entries.insert key a }

/-- The living object under an address, or else the object that `make` gives, which is put there.
Nothing changes if `make` fails. The flag says whether `make` was asked. -/
def getOrInsert {ε : Type} (c : WeakCache α) (alive : α → Bool) (key : Nat)
    (make : Unit → Except ε α) : Except ε (Bool × α) × WeakCache α :=
  match c.lookup alive key with
  | some a => (.ok (false, a), c)
  | none =>
    match make () with
    | .ok a => (.ok (true, a), c.insert alive key a)
    | .error e => (.error e, c)

/-- Whether a living object is under an address. -/
def contains (c : WeakCache α) (alive : α → Bool) (key : Nat) : Bool :=
  (c.lookup alive key).isSome

/-- The cache without its entry under an address. -/
def forget (c : WeakCache α) (key : Nat) : WeakCache α :=
  { c with entries := c.entries.erase key }

/-- The number of entries whose objects are alive. -/
def liveCount (c : WeakCache α) (alive : α → Bool) : Nat :=
  (c.entries.filter fun _ a => alive a).size

/-- The number of entries, the dead ones included. -/
def size (c : WeakCache α) : Nat := c.entries.size

/-! ## What look-ups see -/

variable (c : WeakCache α) (alive : α → Bool) (key : Nat)

/-- No look-up sees a sweep. -/
@[simp] theorem lookup_sweep : (c.sweep alive).lookup alive key = c.lookup alive key := by
  simp only [lookup, sweep, Table.get?_filter, Option.filter_filter, Bool.and_self]

theorem lookup_forget (key' : Nat) :
    (c.forget key).lookup alive key' = if key' = key then none else c.lookup alive key' := by
  simp only [lookup, forget, Table.get?_erase]
  split <;> rfl

end WeakCache

end CanonIR
