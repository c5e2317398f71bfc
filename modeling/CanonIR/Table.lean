/-!
Finite tables: entries under keys, each key at most once. The view of a table is `get?`; each
operation has one equation through it. Tables are lists, newest entry first, so that closed tables
can be evaluated in proofs.
-/

namespace CanonIR

/-- Finitely many entries, each under a key of its own. -/
structure Table (κ α : Type) where
  entries : List (κ × α) := []
  nodup : (entries.map Prod.fst).Nodup := by simp

namespace Table

variable {κ α : Type}

/-- The table without entries. -/
def empty : Table κ α := {}

instance : EmptyCollection (Table κ α) := ⟨empty⟩
instance : Inhabited (Table κ α) := ⟨empty⟩

def size (t : Table κ α) : Nat := t.entries.length

def keys (t : Table κ α) : List κ := t.entries.map Prod.fst

def values (t : Table κ α) : List α := t.entries.map Prod.snd

/-- The entries that pass a test. -/
def filter (p : κ → α → Bool) (t : Table κ α) : Table κ α where
  entries := t.entries.filter fun e => p e.1 e.2
  nodup := t.nodup.sublist (List.filter_sublist.map _)

variable [DecidableEq κ]

/-- The entry under a key. -/
def get? (t : Table κ α) (k : κ) : Option α :=
  t.entries.lookup k

/-- The table without the entry under a key. -/
def erase (t : Table κ α) (k : κ) : Table κ α :=
  t.filter fun k' _ => k' != k

/-- The table with an entry put under a key, in place of the entry that was there. -/
def insert (t : Table κ α) (k : κ) (a : α) : Table κ α where
  entries := (k, a) :: (t.erase k).entries
  nodup := by
    rw [List.map_cons, List.nodup_cons]
    refine ⟨?_, (t.erase k).nodup⟩
    simp [erase, filter]

/-- The table with the entry under a key changed, if there is one. -/
def modify (t : Table κ α) (k : κ) (f : α → α) : Table κ α :=
  match t.get? k with
  | some a => t.insert k (f a)
  | none => t

def contains (t : Table κ α) (k : κ) : Bool := (t.get? k).isSome

/-! ## The view -/

@[simp] theorem get?_empty (k : κ) : (empty : Table κ α).get? k = none := rfl

theorem lookup_cons_eq (l : List (κ × α)) (j k : κ) (a : α) :
    ((j, a) :: l).lookup k = if k = j then some a else l.lookup k := by
  rw [List.lookup_cons]
  by_cases h : k = j
  · simp [h]
  · rw [beq_false_of_ne h, if_neg h]

theorem lookup_filter_ne (l : List (κ × α)) (k k' : κ) :
    (l.filter fun e => e.1 != k).lookup k' = if k' = k then none else l.lookup k' := by
  induction l with
  | nil => simp
  | cons e l ih =>
    obtain ⟨j, a⟩ := e
    by_cases hj : j = k <;> by_cases hk : k' = j <;> grind

theorem get?_erase (t : Table κ α) (k k' : κ) :
    (t.erase k).get? k' = if k' = k then none else t.get? k' :=
  lookup_filter_ne t.entries k k'

theorem get?_insert (t : Table κ α) (k k' : κ) (a : α) :
    (t.insert k a).get? k' = if k' = k then some a else t.get? k' := by
  have h : (t.insert k a).get? k' = if k' = k then some a else (t.erase k).get? k' :=
    lookup_cons_eq _ _ _ _
  rw [h, get?_erase]
  split <;> rfl

theorem get?_modify (t : Table κ α) (k k' : κ) (f : α → α) :
    (t.modify k f).get? k' = if k' = k then (t.get? k).map f else t.get? k' := by
  unfold modify
  split
  · next a h => rw [get?_insert, h]; rfl
  · next h => by_cases hk : k' = k <;> simp [hk, h]

theorem lookup_filter {l : List (κ × α)} (h : (l.map Prod.fst).Nodup) (p : κ → α → Bool) (k : κ) :
    (l.filter fun e => p e.1 e.2).lookup k = (l.lookup k).filter (p k) := by
  induction l with
  | nil => rfl
  | cons e l ih =>
    obtain ⟨j, a⟩ := e
    rw [List.map_cons, List.nodup_cons] at h
    rw [lookup_cons_eq, List.filter_cons]
    by_cases hk : k = j
    · subst hk
      have hl : l.lookup k = none := by
        rw [List.lookup_eq_none_iff]
        intro e he
        simpa using fun hke => h.1 (List.mem_map.2 ⟨e, he, hke.symm⟩)
      by_cases hp : p k a
      · simp [hp, Option.filter]
      · simp [hp, ih h.2, hl, Option.filter]
    · by_cases hp : p j a <;> simp [hp, hk, lookup_cons_eq, ih h.2]

/-- An entry passes through a filter if it passes the test. -/
theorem get?_filter (t : Table κ α) (p : κ → α → Bool) (k : κ) :
    (t.filter p).get? k = (t.get? k).filter (p k) :=
  lookup_filter t.nodup p k

end Table

end CanonIR
