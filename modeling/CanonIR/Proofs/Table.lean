import Mathlib.Data.List.Nodup
import Mathlib.Data.List.Perm.Basic
import CanonIR.Slots

/-!
Tables through their views: the entries of a table are the pairs that look-ups give, so tables with
the same view have the same keys and the same size.
-/

namespace CanonIR.Table

variable {κ α β : Type} [DecidableEq κ]

theorem mem_of_lookup {l : List (κ × α)} {k : κ} {a : α} (h : l.lookup k = some a) :
    (k, a) ∈ l := by
  obtain ⟨l₁, l₂, rfl, _⟩ := List.lookup_eq_some_iff.mp h
  simp

/-- Keys are told apart, so the first entry under a key is the only one. -/
theorem lookup_of_mem {l : List (κ × α)} (hl : (l.map Prod.fst).Nodup) {k : κ} {a : α}
    (h : (k, a) ∈ l) : l.lookup k = some a := by
  induction l with
  | nil => simp at h
  | cons e l ih =>
    obtain ⟨j, b⟩ := e
    rw [List.map_cons, List.nodup_cons] at hl
    rw [lookup_cons_eq]
    rcases List.mem_cons.mp h with h | h
    · obtain ⟨rfl, rfl⟩ := Prod.mk.inj h
      rw [if_pos rfl]
    · have hk : k ≠ j := fun hk => hl.1 (List.mem_map.mpr ⟨(k, a), h, hk⟩)
      rw [if_neg hk, ih hl.2 h]

theorem get?_eq_some_iff {t : Table κ α} {k : κ} {a : α} :
    t.get? k = some a ↔ (k, a) ∈ t.entries :=
  ⟨mem_of_lookup, lookup_of_mem t.nodup⟩

theorem mem_keys_iff {t : Table κ α} {k : κ} : k ∈ t.keys ↔ (t.get? k).isSome := by
  rw [Option.isSome_iff_exists, keys, List.mem_map]
  constructor
  · intro hx
    obtain ⟨⟨k, a⟩, h, rfl⟩ := hx
    exact ⟨a, get?_eq_some_iff.mpr h⟩
  · intro hx
    obtain ⟨a, h⟩ := hx
    exact ⟨(k, a), get?_eq_some_iff.mp h, rfl⟩

/-- Tables with entries under the same keys are of the same size. -/
theorem size_eq_of_isSome_get? {t : Table κ α} {u : Table κ β}
    (h : ∀ k, (t.get? k).isSome = (u.get? k).isSome) : t.size = u.size := by
  have hp : t.keys.Perm u.keys := by
    refine (List.perm_ext_iff_of_nodup t.nodup u.nodup).mpr fun k => ?_
    change k ∈ t.keys ↔ k ∈ u.keys
    rw [mem_keys_iff, mem_keys_iff, h]
  have hl := hp.length_eq
  rwa [keys, keys, List.length_map, List.length_map] at hl

/-- Lists that no two entries share, put one behind the other. -/
theorem nodup_flatMap_values {t : Table κ α} {f : α → List β}
    (hn : ∀ k a, t.get? k = some a → (f a).Nodup)
    (hd : ∀ k a k' a' x, t.get? k = some a → t.get? k' = some a' → x ∈ f a → x ∈ f a' → k = k') :
    (t.values.flatMap f).Nodup := by
  refine List.nodup_flatMap.mpr ⟨fun a ha => ?_, ?_⟩
  · obtain ⟨⟨k, a⟩, he, rfl⟩ := List.mem_map.mp ha
    exact hn k a (get?_eq_some_iff.mpr he)
  · refine List.pairwise_map.mpr ((List.pairwise_map.mp t.nodup).imp_of_mem ?_)
    intro e e' he he' hne x hx hx'
    exact hne (hd e.1 e.2 e'.1 e'.2 x (get?_eq_some_iff.mpr he) (get?_eq_some_iff.mpr he') hx hx')

theorem get?_of_get?_erase {t : Table κ α} {j k : κ} {a : α} (h : (t.erase j).get? k = some a) :
    k ≠ j ∧ t.get? k = some a := by
  rw [get?_erase] at h
  split at h
  · simp at h
  · next hk => exact ⟨hk, h⟩

/-- What is found after an insertion is the new entry, or an old one under another key. -/
theorem get?_of_get?_insert {t : Table κ α} {j k : κ} {a b : α}
    (h : (t.insert j b).get? k = some a) : (k = j ∧ a = b) ∨ (k ≠ j ∧ t.get? k = some a) := by
  rw [get?_insert] at h
  split at h
  · next hk => exact Or.inl ⟨hk, (Option.some.inj h).symm⟩
  · next hk => exact Or.inr ⟨hk, h⟩

theorem get?_of_get?_filter {t : Table κ α} {p : κ → α → Bool} {k : κ} {a : α}
    (h : (t.filter p).get? k = some a) : t.get? k = some a ∧ p k a = true := by
  rw [get?_filter] at h
  exact Option.filter_eq_some_iff.mp h

/-! ## Changing all entries -/

/-- The table with every entry changed. -/
def map (f : α → β) (t : Table κ α) : Table κ β where
  entries := t.entries.map fun e => (e.1, f e.2)
  nodup := by
    rw [List.map_map]
    exact t.nodup

omit [DecidableEq κ] in
theorem ext {t u : Table κ α} (h : t.entries = u.entries) : t = u := by
  cases t
  cases u
  congr

theorem get?_map (f : α → β) (t : Table κ α) (k : κ) : (t.map f).get? k = (t.get? k).map f := by
  have h (l : List (κ × α)) :
      (l.map fun e => (e.1, f e.2)).lookup k = (l.lookup k).map f := by
    induction l with
    | nil => rfl
    | cons e l ih =>
      rw [List.map_cons, lookup_cons_eq, lookup_cons_eq, ih]
      split <;> rfl
  exact h t.entries

omit [DecidableEq κ] in
theorem filter_map (f : α → β) (t : Table κ α) (p : κ → β → Bool) :
    (t.map f).filter p = (t.filter fun k a => p k (f a)).map f :=
  ext List.filter_map

theorem erase_map (f : α → β) (t : Table κ α) (k : κ) : (t.map f).erase k = (t.erase k).map f :=
  t.filter_map f _

/-- An insertion commutes with a change of all entries, since keys stay. -/
theorem insert_map (f : α → β) (t : Table κ α) (k : κ) (a : α) :
    (t.map f).insert k (f a) = (t.insert k a).map f :=
  ext (congrArg ((k, f a) :: ·) (congrArg entries (t.erase_map f k)))

omit [DecidableEq κ] in
theorem size_map (f : α → β) (t : Table κ α) : (t.map f).size = t.size := List.length_map _

end CanonIR.Table
